import KubeLedger.Proofs.Deliveries
import KubeLedger.Proofs.Mirrors
import KubeLedger.Proofs.PrimaryRows
import KubeLedger.Proofs.Service

/- Cold starts. A reconciler learns from the store which objects it holds, takes every object that
   is listed, and then the listing itself, which makes it delete what it knows and what is not
   listed. In surroundings in which nothing fails, the store is a mirror of the listing afterwards,
   whatever it held before (`cold_start`): the two halves of the way are an induction over the
   objects and one over the deletions, with one invariant (`Delivery.Mirrors`). -/
namespace KubeLedger

open Database

/-- Objects that may be listed. Each can be mapped and is in scope, no two have one name, and the
given keys hold those of their containers, also of containers of which only usage is reported. -/
structure Listable {σ : Type} (env : Surroundings σ) (calm : σ → Prop) (r₀ : Reconciler)
    (keys : List (List String)) (objects : List ClusterObject) : Prop where
  valid : ∀ o ∈ objects, ∃ m, r₀.kind.map o = .ok m ∧ m.keys ⊆ keys
  inScope : ∀ o ∈ objects, r₀.inScope o.id.ns = true
  nodup : (objects.map fun o => o.id).Nodup
  reported : ∀ o ∈ objects, ∀ metrics, env.Reports calm o.id metrics →
    ∀ us, ContainerUsage.ofMetrics o.id metrics = .ok us →
      ∀ u ∈ us, [o.id.ns, o.id.name, u.containerName] ∈ keys

theorem Listable.mono {σ : Type} {env : Surroundings σ} {calm : σ → Prop} {r₀ : Reconciler}
    {keys : List (List String)} {objects more : List ClusterObject}
    (h : Listable env calm r₀ keys (objects ++ more)) : Listable env calm r₀ keys objects where
  valid := fun o ho => h.valid o (List.mem_append_left more ho)
  inScope := fun o ho => h.inScope o (List.mem_append_left more ho)
  nodup := by
    have hnodup := h.nodup
    rw [List.map_append] at hnodup
    exact hnodup.of_append_left
  reported := fun o ho => h.reported o (List.mem_append_left more ho)

theorem Listable.fresh {σ : Type} {env : Surroundings σ} {calm : σ → Prop} {r₀ : Reconciler}
    {keys : List (List String)} {objects : List ClusterObject} {o : ClusterObject}
    (h : Listable env calm r₀ keys (objects ++ [o])) : ∀ o' ∈ objects, o'.id ≠ o.id := by
  intro o' ho' he
  have hnodup := h.nodup
  rw [List.map_append, List.nodup_append] at hnodup
  exact hnodup.2.2 o'.id (List.mem_map_of_mem (f := fun o : ClusterObject => o.id) ho') o.id
    List.mem_cons_self he

def Delivery.taking (feed : List (Clock × ClusterObject)) : List (Clock × FeedEvent) :=
  feed.map fun x => (x.1, .notification (.seen x.2))

/-- A delivery on its way from a cold start, with nothing that waits. It knows what it held in scope
and what was listed since, but for what it deleted. -/
structure Delivery.Mirrors {σ : Type} (env : Surroundings σ) (db : σ → Database) (calm : σ → Prop)
    (r₀ : Reconciler) (keys : List (List String)) (d₀ : Database) (listed : List ClusterObject)
    (gone : List ObjectId) (d : Delivery) (w : σ) : Prop where
  isCalm : calm w
  pending : d.pending = []
  kind : d.reconciler.kind = r₀.kind
  config : d.reconciler.config = r₀.config
  grouped : d.reconciler.known.Grouped
  known : ∀ id, d.reconciler.known.contains id = true →
    [id.ns, id.name] ∈ keys ∧ r₀.inScope id.ns = true ∧ id ∉ gone ∧
      ((∃ o ∈ listed, o.id = id) ∨ ∃ p ∈ d₀.rows r₀.kind.table.name, r₀.kind.table.Names p id)
  kept : ∀ id : ObjectId, r₀.inScope id.ns = true → id ∉ gone →
    ((∃ o ∈ listed, o.id = id ∧ env.Readable calm id) ∨
      ∃ p ∈ d₀.rows r₀.kind.table.name, r₀.kind.table.Names p id) →
    d.reconciler.known.contains id = true
  mirrored : Mirrored r₀.kind r₀.inScope keys d₀ listed gone (db w)

namespace Delivery.Mirrors

variable {σ : Type} {env : Surroundings σ} {db : σ → Database} {calm : σ → Prop} {r₀ : Reconciler}
  {keys : List (List String)} {d₀ : Database} {listed : List ClusterObject} {gone : List ObjectId}
  {d : Delivery} {w : σ}

theorem inScope_eq (hm : d.Mirrors env db calm r₀ keys d₀ listed gone w) :
    d.reconciler.inScope = r₀.inScope := by
  funext ns
  unfold Reconciler.inScope
  rw [hm.config]

theorem start (hkeeps : env.Keeps db fun _ => True) (hserves : env.Serves calm) (hcalm : calm w)
    (hcold : (db w).Cold r₀.kind r₀.inScope keys) :
    ∃ r w₁, r₀.warmUp.runIn env w = (.ok r, w₁) ∧
      Mirrors env db calm r₀ keys (db w) [] [] ⟨r, []⟩ w₁ := by
  obtain ⟨r, w₁, hrun, hcalm₁⟩ := hserves.warmUp (r := r₀) hcalm
  obtain ⟨hsame, hkind, hconfig, hgrouped, hknown⟩ := Reconciler.warmUp_known hkeeps trivial hrun
  refine ⟨r, w₁, hrun,
    { isCalm := hcalm₁
      pending := rfl
      kind := hkind
      config := hconfig
      grouped := hgrouped
      known := fun id hid => ?_
      kept := fun id hscope _ hfrom => ?_
      mirrored := (Mirrored.start hcold).sameOn hsame }⟩
  · obtain ⟨hscope, row, hrow, hns, hname⟩ := (hknown id).mp hid
    obtain ⟨id', hkey, hnames⟩ := hcold.primary row hrow
    have hns' : id'.ns = id.ns := Cell.text.inj (hnames.ns.symm.trans hns)
    have hname' : id'.name = id.name := Cell.text.inj (hnames.name.symm.trans hname)
    obtain rfl : id' = id := by
      cases id; cases id'
      exact congrArg₂ ObjectId.mk hns' hname'
    exact ⟨hkey, hscope, List.not_mem_nil, Or.inr ⟨row, hrow, hnames⟩⟩
  · -- what is kept before the first object is what the rows name
    rcases hfrom with ⟨o, ho, -⟩ | ⟨row, hrow, hnames⟩
    · cases ho
    · exact (hknown id).mpr ⟨hscope, row, hrow, hnames.ns, hnames.name⟩

/-! ## One event -/

/-- One more object is listed. It may be known now, and is if its usage can be read. -/
theorem more {o : ClusterObject} {w' : σ} {known : IdSet}
    (hm : d.Mirrors env db calm r₀ keys d₀ listed [] w) (hkey : [o.id.ns, o.id.name] ∈ keys)
    (hscope : r₀.inScope o.id.ns = true) (hcalm : calm w')
    (hmirrored : Mirrored r₀.kind r₀.inScope keys d₀ (listed ++ [o]) [] (db w'))
    (hgrouped : known.Grouped)
    (hknown : ∀ id, known.contains id = true →
      id = o.id ∨ d.reconciler.known.contains id = true)
    (hkept : ∀ id, d.reconciler.known.contains id = true → known.contains id = true)
    (hread : env.Readable calm o.id → known.contains o.id = true) :
    Mirrors env db calm r₀ keys d₀ (listed ++ [o]) [] ⟨{ d.reconciler with known }, []⟩ w' where
  isCalm := hcalm
  pending := rfl
  kind := hm.kind
  config := hm.config
  grouped := hgrouped
  known := by
    intro id hid
    rcases hknown id hid with rfl | hid
    · exact ⟨hkey, hscope, List.not_mem_nil,
        Or.inl ⟨o, List.mem_append_right _ List.mem_cons_self, rfl⟩⟩
    · obtain ⟨hkey', hscope', hgone, hfrom⟩ := hm.known id hid
      refine ⟨hkey', hscope', hgone, hfrom.imp_left ?_⟩
      rintro ⟨o', ho', rfl⟩
      exact ⟨o', List.mem_append_left _ ho', rfl⟩
  kept := by
    intro id hscope' hgone hfrom
    rcases hfrom with ⟨o', ho', rfl, hreadable⟩ | hfrom
    · rcases List.mem_append.mp ho' with ho' | ho'
      · exact hkept _ (hm.kept o'.id hscope' hgone (Or.inl ⟨o', ho', rfl, hreadable⟩))
      · obtain rfl := List.mem_singleton.mp ho'
        exact hread hreadable
    · exact hkept _ (hm.kept id hscope' hgone (Or.inr hfrom))
  mirrored := hmirrored

theorem seen {o : ClusterObject} (hm : d.Mirrors env db calm r₀ keys d₀ listed [] w)
    (hkeys : Distinct keys) (hkeeps : env.Keeps db fun _ => True) (hserves : env.Serves calm)
    (hcold : d₀.Cold r₀.kind r₀.inScope keys)
    (hlistable : Listable env calm r₀ keys (listed ++ [o])) (clock : Clock) :
    (d.receive env clock (.notification (.seen o)) w).1.Mirrors env db calm r₀ keys d₀
      (listed ++ [o]) [] (d.receive env clock (.notification (.seen o)) w).2 := by
  have hlast : o ∈ listed ++ [o] := List.mem_append_right _ List.mem_cons_self
  have hscope := hlistable.inScope o hlast
  obtain ⟨m, hmap, hin⟩ := hlistable.valid o hlast
  have hkey : [o.id.ns, o.id.name] ∈ keys := by
    rw [← (Kind.map_describes hmap).objectId]
    exact hin List.mem_cons_self
  obtain ⟨r, pending⟩ := d
  obtain rfl : pending = [] := hm.pending
  obtain ⟨result, w', hrun⟩ : ∃ result w', (r.sync (.seen o)).runIn env w = (result, w') :=
    ⟨_, _, rfl⟩
  have hkind : r.kind = r₀.kind := hm.kind
  obtain ⟨hcalm, hresult, trace, taken, hchanges, htaken, hreports⟩ :=
    hserves.seen hkeeps hm.isCalm rfl (hkind ▸ hmap) hrun
  have hmirrored := hm.mirrored.seen hkeys hcold hmap hin hscope hlistable.fresh
    (hkind ▸ hchanges) htaken
    fun metrics hin => hlistable.reported o hlast metrics (hreports metrics hin)
  have hdeliver := deliver_quiet clock hrun (hserves.sync hm.isCalm hrun).2
  show (deliver env clock (.seen o) ⟨r, []⟩ w).1.Mirrors env db calm r₀ keys d₀ (listed ++ [o]) []
    (deliver env clock (.seen o) ⟨r, []⟩ w).2
  rw [hdeliver]
  -- the rows are there either way, but only an upsert that succeeds makes the object known
  rcases hresult with rfl | ⟨⟨e, rfl⟩, hunreadable⟩
  · exact hm.more hkey hscope hcalm hmirrored (hm.grouped.insert o.id)
      (fun id hid => (IdSet.contains_insert _ _ _).mp hid)
      (fun id hid => (IdSet.contains_insert _ _ _).mpr (Or.inr hid))
      fun _ => (IdSet.contains_insert _ _ _).mpr (Or.inl rfl)
  · exact hm.more hkey hscope hcalm hmirrored hm.grouped (fun id hid => Or.inr hid)
      (fun id hid => hid) fun hreadable => absurd hreadable hunreadable

theorem deleted (hm : d.Mirrors env db calm r₀ keys d₀ listed gone w) (hkeys : Distinct keys)
    (hkeeps : env.Keeps db fun _ => True) (hserves : env.Serves calm) {id : ObjectId}
    (hid : [id.ns, id.name] ∈ keys) (hscope : r₀.inScope id.ns = true)
    (hnew : ∀ o ∈ listed, o.id ≠ id) (clock : Clock) :
    (d.deliver env clock (.deleted id) w).1.Mirrors env db calm r₀ keys d₀ listed (id :: gone)
      (d.deliver env clock (.deleted id) w).2 := by
  obtain ⟨r, pending⟩ := d
  obtain rfl : pending = [] := hm.pending
  obtain ⟨result, w', hrun⟩ : ∃ result w', (r.sync (.deleted id)).runIn env w = (result, w') :=
    ⟨_, _, rfl⟩
  have hkind : r.kind = r₀.kind := hm.kind
  have hn : (Notification.deleted id).id = id := by
    have hplain := hkeys.plain _ hid
    exact Notification.deleted_id ⟨hplain id.ns (by simp), hplain id.name (by simp)⟩
  obtain ⟨hcalm, r', rfl⟩ := hserves.deleted hm.isCalm rfl hrun
  have hchanges := Reconciler.deleted_ok hkeeps rfl hrun
  obtain rfl := Reconciler.deleted_known rfl hrun
  rw [hkind, hn] at hchanges
  rw [deliver_quiet clock hrun fun e he => nomatch he]
  refine
    { isCalm := hcalm
      pending := rfl
      kind := hkind
      config := hm.config
      grouped := hm.grouped.erase _
      known := fun id' hid' => ?_
      kept := fun id' hscope' hgone hfrom => ?_
      mirrored := hm.mirrored.deleted hkeys hid hscope hnew hchanges }
  · rw [hn] at hid'
    obtain ⟨hne, hid'⟩ := (IdSet.contains_erase hm.grouped _ _).mp hid'
    obtain ⟨hkey, hscope', hgone, hfrom⟩ := hm.known id' hid'
    exact ⟨hkey, hscope', fun hin => (List.mem_cons.mp hin).elim hne hgone, hfrom⟩
  · obtain ⟨hne, hgone⟩ := List.ne_and_not_mem_of_not_mem_cons hgone
    rw [hn]
    exact (IdSet.contains_erase hm.grouped _ _).mpr ⟨hne, hm.kept id' hscope' hgone hfrom⟩

/-! ## The way -/

theorem receiveAll (hkeys : Distinct keys) (hkeeps : env.Keeps db fun _ => True)
    (hserves : env.Serves calm) (hcold : d₀.Cold r₀.kind r₀.inScope keys)
    (feed : List (Clock × ClusterObject))
    (hlistable : Listable env calm r₀ keys (listed ++ feed.map Prod.snd))
    (hm : d.Mirrors env db calm r₀ keys d₀ listed [] w) :
    (Delivery.receiveAll env (taking feed) d w).1.Mirrors env db calm r₀ keys d₀
      (listed ++ feed.map Prod.snd) [] (Delivery.receiveAll env (taking feed) d w).2 := by
  -- the objects taken so far go from the feed to the listed ones
  induction feed generalizing listed d w with
  | nil =>
    rw [List.map_nil, List.append_nil]
    exact hm
  | cons x feed ih =>
    rw [List.map_cons, List.append_cons] at hlistable ⊢
    exact ih hlistable (hm.seen hkeys hkeeps hserves hcold hlistable.mono x.1)

theorem deliverAll (hkeys : Distinct keys) (hkeeps : env.Keeps db fun _ => True)
    (hserves : env.Serves calm) (clock : Clock) (ns : List Notification)
    (hns : ∀ n ∈ ns, n = .deleted n.id ∧ [n.id.ns, n.id.name] ∈ keys ∧
      r₀.inScope n.id.ns = true ∧ ∀ o ∈ listed, o.id ≠ n.id)
    (hm : d.Mirrors env db calm r₀ keys d₀ listed gone w) :
    (d.deliverAll env clock ns w).1.Mirrors env db calm r₀ keys d₀ listed
      ((ns.map fun n => n.id).reverse ++ gone) (d.deliverAll env clock ns w).2 := by
  induction ns generalizing gone d w with
  | nil => exact hm
  | cons n ns ih =>
    obtain ⟨hn, hid, hscope, hnew⟩ := hns n List.mem_cons_self
    have hfirst := hm.deleted hkeys hkeeps hserves hid hscope hnew clock
    rw [← hn] at hfirst
    rw [List.map_cons, List.reverse_cons, List.append_assoc]
    exact ih (fun n' hn' => hns n' (List.mem_cons_of_mem n hn')) hfirst

/-! ## The listing -/

/-- The deletions that a listing of the taken objects calls for are those of the known objects that
are not listed. -/
theorem mem_deletions (hm : d.Mirrors env db calm r₀ keys d₀ listed [] w) {ids : IdSet}
    (hids : ∀ id, ids.contains id = true ↔ ∃ o ∈ listed, o.id = id) {n : Notification} :
    n ∈ d.deletions ids ↔ ∃ id, d.reconciler.known.contains id = true ∧
      (∀ o ∈ listed, o.id ≠ id) ∧ Notification.deleted id = n := by
  have hunlisted : ∀ id, ids.contains id = false ↔ ∀ o ∈ listed, o.id ≠ id := by
    intro id
    rw [← Bool.not_eq_true, hids]
    push Not
    rfl
  constructor
  · intro hn
    rcases Delivery.mem_deletions hn with hstale | ⟨r, hr, -⟩
    · obtain ⟨id, hid, -, rfl⟩ := mem_stale.mp hstale
      obtain ⟨hknown, hfree⟩ := (IdSet.mem_difference hm.grouped).mp hid
      exact ⟨id, hknown, (hunlisted id).mp hfree, rfl⟩
    · rw [hm.pending] at hr
      cases hr
  · rintro ⟨id, hknown, hfree, rfl⟩
    refine stale_subset_deletions _ (mem_stale.mpr ⟨id, ?_, ?_, rfl⟩)
    · exact (IdSet.mem_difference hm.grouped).mpr ⟨hknown, (hunlisted id).mpr hfree⟩
    · rw [hm.inScope_eq]
      exact (hm.known id hknown).2.1

theorem complete (hm : d.Mirrors env db calm r₀ keys d₀ listed [] w) (hkeys : Distinct keys)
    (hkeeps : env.Keeps db fun _ => True) (hserves : env.Serves calm) {ids : IdSet}
    (hids : ∀ id, ids.contains id = true ↔ ∃ o ∈ listed, o.id = id) (clock : Clock)
    {ns : List Notification} (hns : ns.Perm (d.deletions ids)) :
    ∃ gone,
      ((d.dropLost ids).deliverAll env clock ns w).1.Mirrors env db calm r₀ keys d₀ listed gone
        ((d.dropLost ids).deliverAll env clock ns w).2 ∧
      (∀ id ∈ gone, ∀ o ∈ listed, o.id ≠ id) ∧ ∀ id, r₀.inScope id.ns = true →
        (∃ p ∈ d₀.rows r₀.kind.table.name, r₀.kind.table.Names p id) →
          (∃ o ∈ listed, o.id = id) ∨ id ∈ gone := by
  have hdeleted : ∀ id, d.reconciler.known.contains id = true →
      (Notification.deleted id).id = id := by
    intro id hid
    have hplain := hkeys.plain _ (hm.known id hid).1
    exact Notification.deleted_id ⟨hplain id.ns (by simp), hplain id.name (by simp)⟩
  -- nothing waits, so nothing is dropped and the deletions are those of stale objects
  have hdrop : d.dropLost ids = d := by
    obtain ⟨r, pending⟩ := d
    obtain rfl : pending = [] := hm.pending
    rfl
  rw [hdrop]
  have hall : ∀ n ∈ ns, n = .deleted n.id ∧ [n.id.ns, n.id.name] ∈ keys ∧
      r₀.inScope n.id.ns = true ∧ ∀ o ∈ listed, o.id ≠ n.id := by
    intro n hn
    obtain ⟨id, hknown, hfree, rfl⟩ := (hm.mem_deletions hids).mp (hns.mem_iff.mp hn)
    obtain ⟨hkey, hscope, -⟩ := hm.known id hknown
    rw [hdeleted id hknown]
    exact ⟨rfl, hkey, hscope, hfree⟩
  refine ⟨_, hm.deliverAll hkeys hkeeps hserves clock ns hall, fun id hgone => ?_,
    fun id hscope hfrom => ?_⟩
  · rw [List.append_nil, List.mem_reverse] at hgone
    obtain ⟨n, hn, rfl⟩ := List.mem_map.mp hgone
    exact (hall n hn).2.2.2
  · by_cases hlisted : ∃ o ∈ listed, o.id = id
    · exact Or.inl hlisted
    · have hknown := hm.kept id hscope List.not_mem_nil (Or.inr hfrom)
      have hn : Notification.deleted id ∈ ns :=
        hns.mem_iff.mpr ((hm.mem_deletions hids).mpr
          ⟨id, hknown, fun o ho he => hlisted ⟨o, ho, he⟩, rfl⟩)
      refine Or.inr (List.mem_append_left _ (List.mem_reverse.mpr (List.mem_map.mpr ⟨_, hn, ?_⟩)))
      exact hdeleted id hknown

end Delivery.Mirrors

/-! ## Stores to start from -/

/-- The row of a pod of which only the name is known. -/
def podRow (pod : ObjectId) : Row :=
  [.id pod.entityId, .text pod.ns, .text pod.name] ++ List.replicate 7 .null

/-- The row of a container of which only the identity and the pod are known. -/
def containerRow (c : EntityId × ObjectId) : Row :=
  [.id c.1, .id c.2.entityId] ++ List.replicate 5 .null

def storeOf (pods : List ObjectId) (containers : List (EntityId × ObjectId)) : Database :=
  (({} : Database).setRows Schema.pod.name (pods.map podRow)).setRows Schema.container.name
    (containers.map containerRow)

section StoreOf
variable {keys : List (List String)} {pods : List ObjectId}
  {containers : List (EntityId × ObjectId)}

theorem storeOf_pods : (storeOf pods containers).rows Schema.pod.name = pods.map podRow := by
  rw [storeOf, rows_setRows_ne _ _ (by decide), rows_setRows_self]

theorem storeOf_containers :
    (storeOf pods containers).rows Schema.container.name = containers.map containerRow :=
  rows_setRows_self ..

theorem storeOf_other {n : String} (hpod : n ≠ Schema.pod.name)
    (hcontainer : n ≠ Schema.container.name) :
    (storeOf pods containers).rows n = [] := by
  rw [storeOf, rows_setRows_ne _ _ hcontainer, rows_setRows_ne _ _ hpod]
  rfl

/-- Rows of different identities do not share a key if the identity is the key. -/
theorem Table.keyed_of_nodup {α : Type} {t : Table} (hkey : t.keyAt = [0]) {row : α → Row}
    {e : α → EntityId} (hcell : ∀ a, cellAt (row a) 0 = .id (e a)) {as : List α}
    (hnodup : (as.map e).Nodup) : t.Keyed (as.map row) := by
  refine List.pairwise_map.mpr ((List.pairwise_map.mp hnodup).imp fun hne => ?_)
  simp only [Table.sameKey, hkey, agree, List.all_cons, List.all_nil, hcell, Bool.and_true]
  rw [← Bool.not_eq_true, Cell.same_id, Cell.id_inj]
  exact hne

theorem storeOf_holding {h : Table × String} (hh : h ∈ Kind.pod.holdings) {row : Row}
    (hrow : row ∈ (storeOf pods containers).rows h.1.name) :
    (h = (Schema.pod, "id") ∧ ∃ pod ∈ pods, podRow pod = row) ∨
      (h = (Schema.container, "pod_id") ∧ ∃ c ∈ containers, containerRow c = row) := by
  obtain ⟨t, column⟩ := h
  by_cases hpod : t.name = Schema.pod.name
  · obtain rfl := Schema.eq_of_name (Kind.holdings_mem _ hh) (by decide) hpod
    obtain rfl := Kind.holdings_unique _ hh Kind.pod.primary_mem.1
    rw [storeOf_pods] at hrow
    exact Or.inl ⟨rfl, List.mem_map.mp hrow⟩
  · by_cases hcontainer : t.name = Schema.container.name
    · obtain rfl := Schema.eq_of_name (Kind.holdings_mem _ hh) (by decide) hcontainer
      obtain rfl := Kind.holdings_unique _ hh Kind.containers_held
      rw [storeOf_containers] at hrow
      exact Or.inr ⟨rfl, List.mem_map.mp hrow⟩
    · rw [storeOf_other hpod hcontainer] at hrow
      cases hrow

theorem storeOf_sound (hpods : (pods.map ObjectId.entityId).Nodup)
    (hcontainers : (containers.map Prod.fst).Nodup) : (storeOf pods containers).IsSound := by
  intro t ht
  by_cases hpod : t.name = Schema.pod.name
  · obtain rfl := Schema.eq_of_name ht (by decide) hpod
    rw [storeOf_pods]
    refine ⟨fun row hrow => ?_, Table.keyed_of_nodup (by decide) (fun _ => rfl) hpods⟩
    obtain ⟨pod, -, rfl⟩ := List.mem_map.mp hrow
    rfl
  · by_cases hcontainer : t.name = Schema.container.name
    · obtain rfl := Schema.eq_of_name ht (by decide) hcontainer
      rw [storeOf_containers]
      refine ⟨fun row hrow => ?_,
        Table.keyed_of_nodup (by decide) (fun _ => rfl) hcontainers⟩
      obtain ⟨c, -, rfl⟩ := List.mem_map.mp hrow
      rfl
    · rw [storeOf_other hpod hcontainer]
      exact Table.Sound.nil t

theorem storeOf_coherent (hkeys : ∀ pod ∈ pods, [pod.ns, pod.name] ∈ keys)
    (hpods : (pods.map ObjectId.entityId).Nodup) (hcontainers : (containers.map Prod.fst).Nodup)
    (howners : ∀ c ∈ containers, c.2 ∈ pods) : (storeOf pods containers).Coherent .pod keys where
  sound := storeOf_sound hpods hcontainers
  primary := by
    intro row hrow
    rcases storeOf_holding Kind.pod.primary_mem.1 hrow with ⟨-, pod, hpod, rfl⟩ | ⟨he, -⟩
    · exact ⟨pod, hkeys pod hpod, rfl, rfl, rfl⟩
    · exact absurd he (by decide)
  owners := by
    intro h hh row hrow
    have hthere : ∀ pod ∈ pods,
        podRow pod ∈ (storeOf pods containers).rows Kind.pod.table.name := by
      intro pod hpod
      show podRow pod ∈ (storeOf pods containers).rows Schema.pod.name
      rw [storeOf_pods]
      exact List.mem_map_of_mem hpod
    rcases storeOf_holding hh hrow with ⟨rfl, pod, hpod, rfl⟩ | ⟨rfl, c, hc, rfl⟩
    · exact ⟨podRow pod, hthere pod hpod, rfl⟩
    · exact ⟨podRow c.2, hthere c.2 (howners c hc), rfl⟩

theorem storeOf_cold {inScope : String → Bool} (h : (storeOf pods containers).Coherent .pod keys)
    (hcontainers : ∀ c ∈ containers, ∃ name, [c.2.ns, c.2.name, name] ∈ keys ∧
      c.1 = .container c.2.ns c.2.name name) :
    (storeOf pods containers).Cold .pod inScope keys :=
  { h with
    anchored := by
      intro t ht htable q _ _ row hrow
      rw [Table.find_id] at hrow
      rcases storeOf_holding ht (List.mem_filter.mp hrow).1 with ⟨rfl, -⟩ | ⟨-, c, hc, rfl⟩
      · exact absurd Kind.pod.primary_mem.2 htable
      · obtain ⟨name, hin, he⟩ := hcontainers c hc
        exact ⟨c.2, name, hin, congrArg Cell.id he, rfl⟩ }

end StoreOf

/-! ## Cold starts -/

/-- A cold start in surroundings in which nothing fails. The reconciler asks the store what it
holds, takes objects in scope of different names, in any order, and then the listing of exactly
these. Afterwards the store mirrors what is listed, whatever it held before, nothing waits, and the
reconciler knows what is listed but for objects whose usage cannot be read. -/
theorem cold_start {σ : Type} {env : Surroundings σ} {db : σ → Database} {calm : σ → Prop}
    {r₀ : Reconciler} {keys : List (List String)} (hkeys : Distinct keys)
    (hkeeps : env.Keeps db fun _ => True) (hserves : env.Serves calm) {w₀ : σ} (hcalm : calm w₀)
    (hcold : (db w₀).Cold r₀.kind r₀.inScope keys) :
    ∃ r w₁, r₀.warmUp.runIn env w₀ = (.ok r, w₁) ∧
      ∀ (feed : List (Clock × ClusterObject)) (ids : IdSet) (clock : Clock)
        (ns : List Notification),
        Listable env calm r₀ keys (feed.map Prod.snd) →
        (∀ id, ids.contains id = true ↔ ∃ o ∈ feed.map Prod.snd, o.id = id) →
        let (d, w) := Delivery.receiveAll env (Delivery.taking feed) ⟨r, []⟩ w₁
        ns.Perm (d.deletions ids) →
          let (d', w') := (d.dropLost ids).deliverAll env clock ns w
          IsMirror r₀.kind r₀.inScope keys (feed.map Prod.snd) (db w₀) (db w') ∧ d'.pending = [] ∧
            (∀ id, d'.reconciler.known.contains id = true → ids.contains id = true) ∧
            ∀ id, ids.contains id = true → env.Readable calm id →
              d'.reconciler.known.contains id = true := by
  obtain ⟨r, w₁, hrun, hstart⟩ := Delivery.Mirrors.start hkeeps hserves hcalm hcold
  refine ⟨r, w₁, hrun, fun feed ids clock ns hlistable hids hns => ?_⟩
  have htaken := hstart.receiveAll hkeys hkeeps hserves hcold feed hlistable
  obtain ⟨gone, hend, hunlisted, hall⟩ := htaken.complete hkeys hkeeps hserves hids clock hns
  refine ⟨hend.mirrored.isMirror hkeys hall, hend.pending, fun id hid => ?_,
    fun id hid hreadable => ?_⟩
  · obtain ⟨-, hscope, hfree, hfrom⟩ := hend.known id hid
    refine (hids id).mpr ?_
    rcases hfrom with hlisted | hfrom
    · exact hlisted
    · exact (hall id hscope hfrom).resolve_right hfree
  · obtain ⟨o, ho, rfl⟩ := (hids id).mp hid
    exact hend.kept o.id (hlistable.inScope o ho) (fun hgone => hunlisted _ hgone o ho rfl)
      (Or.inl ⟨o, ho, rfl, hreadable⟩)

/-- It applies to a store with a pod that is not there any more and one in another namespace, each
with a container. -/
theorem cold_start_replaces :
    let keys := [["default", "web-1"], ["default", "web-1", "nginx"], ["default", "old-1"],
      ["default", "old-1", "main"], ["other", "web-9"], ["other", "web-9", "main"]]
    let r₀ : Reconciler := ⟨.pod, { ns := some "default" }, .empty⟩
    let before := storeOf [⟨"default", "old-1"⟩, ⟨"other", "web-9"⟩]
      [(.container "default" "old-1" "main", ⟨"default", "old-1"⟩),
        (.container "other" "web-9" "main", ⟨"other", "web-9"⟩)]
    let new := barePod "default" "web-1" ["nginx"]
    ∃ r w₁, r₀.warmUp.runIn World.answer { store := { database := before } } = (.ok r, w₁) ∧
      let (d, w) := Delivery.receiveAll World.answer (Delivery.taking [(⟨0, id⟩, new)]) ⟨r, []⟩ w₁
      let (d', w') := d.receive World.answer ⟨1, id⟩ (.listed (.ofList [new.id])) w
      IsMirror .pod r₀.inScope keys [new] before w'.store.database ∧ d'.pending = [] ∧
        ∀ id, d'.reconciler.known.contains id = true ↔ id = new.id := by
  intro keys r₀ before new
  have hkeys : Distinct keys := ⟨by decide, by decide, by decide +kernel⟩
  have hserves := World.serves (c := {}) rfl rfl
  let w₀ : World := { store := { database := before } }
  have hcalm : w₀.store.failing = [] ∧ w₀.cluster = {} := ⟨rfl, rfl⟩
  have hcold : w₀.store.database.Cold r₀.kind r₀.inScope keys := by
    refine storeOf_cold (storeOf_coherent (by decide) (by decide +kernel) (by decide +kernel)
      (by decide +kernel)) fun c hc => ⟨"main", ?_⟩
    rcases List.mem_pair.mp hc with rfl | rfl
    · exact ⟨by decide, rfl⟩
    · exact ⟨by decide, rfl⟩
  obtain ⟨r, w₁, hrun, hall⟩ := cold_start hkeys World.keeps hserves hcalm hcold
  obtain ⟨m, hmap, hin, -⟩ := barePod_map "default" "web-1" ["nginx"]
  have hlistable : Listable World.answer (fun w => w.store.failing = [] ∧ w.cluster = {}) r₀ keys
      [new] :=
    { valid := by
        intro o ho
        obtain rfl := List.mem_singleton.mp ho
        exact ⟨m, hmap, by rw [hin]; decide⟩
      inScope := by decide
      nodup := List.nodup_singleton _
      reported := fun o _ metrics h => absurd h (World.reports_nothing rfl) }
  have hids : ∀ id, (IdSet.ofList [new.id]).contains id = true ↔ ∃ o ∈ [new], o.id = id := by
    intro id
    rw [IdSet.contains_ofList]
    simp [eq_comm]
  obtain ⟨hmirror, hpending, hsub, hsup⟩ := hall [(⟨0, id⟩, new)] (.ofList [new.id]) ⟨1, id⟩ _
    hlistable hids (List.Perm.refl _)
  refine ⟨r, w₁, hrun, hmirror, hpending, fun id => ⟨fun hid => ?_, ?_⟩⟩
  · exact List.mem_singleton.mp ((IdSet.contains_ofList _ _).mp (hsub id hid))
  · rintro rfl
    exact hsup new.id ((IdSet.contains_ofList _ _).mpr List.mem_cons_self) fun metrics h =>
      absurd h (World.reports_nothing rfl)

/-- The exceptions are there. A pod whose usage cannot be read is listed but not known, and a
container of a listed pod takes its row from a pod out of scope that has it under this identity. -/
theorem cold_start_limits :
    let new := barePod "default" "web-1" ["nginx"]
    (∃ r w₁, (Reconciler.mk .pod { fetchLogs := false } .empty).warmUp.runIn World.answer
        { cluster := { usages := [(new.id, ⟨.object [("window", .text "soon")]⟩)] } } =
        (.ok r, w₁) ∧
      let (d, w) := Delivery.receiveAll World.answer (Delivery.taking [(⟨0, id⟩, new)]) ⟨r, []⟩ w₁
      let (d', _) := d.receive World.answer ⟨1, id⟩ (.listed (.ofList [new.id])) w
      d'.reconciler.known.contains new.id = false) ∧
    let keys := [["default", "web-1"], ["default", "web-1", "nginx"], ["other", "web-9"]]
    let r₀ : Reconciler := ⟨.pod, { ns := some "default", fetchLogs := false }, .empty⟩
    let before := storeOf [⟨"other", "web-9"⟩]
      [(.container "default" "web-1" "nginx", ⟨"other", "web-9"⟩)]
    before.Coherent .pod keys ∧
      ∃ r w₁, r₀.warmUp.runIn World.answer { store := { database := before } } = (.ok r, w₁) ∧
        let (d, w) := Delivery.receiveAll World.answer (Delivery.taking [(⟨0, id⟩, new)]) ⟨r, []⟩ w₁
        let (_, w') := d.receive World.answer ⟨1, id⟩ (.listed (.ofList [new.id])) w
        ¬SameOutside .pod r₀.inScope keys before w'.store.database := by
  refine ⟨⟨_, _, rfl, ?_⟩, storeOf_coherent (by decide) (by decide +kernel) (by decide +kernel)
    (by decide +kernel), _, _, rfl, fun h => ?_⟩
  · decide +kernel
  · have hsame := congrArg List.length (h.objects ⟨"other", "web-9"⟩ (by decide) (by decide)
      (Schema.container, "pod_id") (by decide +kernel))
    exact absurd hsame (by decide +kernel)

end KubeLedger
