import KubeLedger.Proofs.Holdings

/- Databases on the way from a cold start to a mirror of what is listed. The way leads through
   upserts of the listed objects and deletions of others in scope, one after another. What is
   reached holds exactly the rows of the objects that were upserted, none of those that were
   deleted, and what was there before of all objects out of scope (`Mirrored`). That each step
   keeps the work of the earlier ones is said by `Holdings`; what is left to the start is that rows
   of objects out of scope are not kept under containers of listed pods (`Cold`). -/
namespace KubeLedger

open Database

section Mirrors
variable (k : Kind) (inScope : String → Bool) (keys : List (List String))

/-- A database with one row for each key, in which every primary row is about an object of the given
keys, and every row of an object refers to a primary row. -/
structure Database.Coherent (d : Database) : Prop where
  sound : d.IsSound
  primary : ∀ row ∈ d.rows k.table.name, ∃ id : ObjectId, [id.ns, id.name] ∈ keys ∧
    k.table.Names row id
  owners : ∀ h ∈ k.holdings, ∀ row ∈ d.rows h.1.name, ∃ p ∈ d.rows k.table.name,
    h.1.cell row h.2 = k.table.cell p "id"

/-- A database that a reconciler may start from. Rows of containers of objects out of scope are kept
under containers of these objects. -/
structure Database.Cold (d : Database) : Prop extends d.Coherent k keys where
  anchored : ∀ h ∈ k.holdings, h.2 ∉ h.1.key → ∀ q : ObjectId, [q.ns, q.name] ∈ keys →
    inScope q.ns = false → ∀ row ∈ d.find h.1 h.2 (.id q.entityId), Anchored keys row

/-- The rows of everything out of scope are the same: those of objects, and the telemetry of the
containers of pods. -/
structure Database.SameOutside (d d' : Database) : Prop where
  objects : ∀ q : ObjectId, [q.ns, q.name] ∈ keys → inScope q.ns = false → ∀ h ∈ k.holdings,
    d'.find h.1 h.2 (.id q.entityId) = d.find h.1 h.2 (.id q.entityId)
  telemetry : k = .pod → ∀ q : ObjectId, [q.ns, q.name] ∈ keys → inScope q.ns = false →
    ∀ e, (∃ row ∈ d.find Schema.container "pod_id" (.id q.entityId), cellAt row 0 = .id e) →
      d'.find Schema.containerMetric "container_id" (.id e) =
        d.find Schema.containerMetric "container_id" (.id e)

/-- The rows of an object are those that it maps to: one primary row, and in the tables where rows
are replaced the last one of each key. -/
def Database.Holds (d : Database) (o : ClusterObject) : Prop :=
  ∃ m, k.map o = .ok m ∧ d.find k.table "id" (.id o.id.entityId) = [m.row] ∧
    ∀ s ∈ m.replaced,
      (d.find s.table s.foreignKey (.id o.id.entityId)).Perm (s.table.latest s.rows)

/-- A database on the way from another: some objects are upserted, and some are deleted. -/
structure Mirrored (d₀ : Database) (listed : List ClusterObject) (gone : List ObjectId)
    (d : Database) : Prop where
  sound : d.IsSound
  within : ∀ o ∈ listed, ∀ m, k.map o = .ok m → m.keys ⊆ keys
  holds : ∀ o ∈ listed, d.Holds k o
  named : ∀ row ∈ d.rows k.table.name, ∃ id : ObjectId, [id.ns, id.name] ∈ keys ∧
    k.table.Names row id
  owners : ∀ h ∈ k.holdings, ∀ row ∈ d.rows h.1.name, ∃ id : ObjectId, [id.ns, id.name] ∈ keys ∧
    h.1.ownedBy h.2 id.entityId row = true ∧
      ((∃ o ∈ listed, o.id = id) ∨ ∃ p ∈ d₀.rows k.table.name, k.table.Names p id)
  removed : ∀ id ∈ gone, ∀ h ∈ k.holdings, d.find h.1 h.2 (.id id.entityId) = []
  outside : SameOutside k inScope keys d₀ d

/-- A database that mirrors listed objects. It holds their rows and no others of objects in scope,
and everything out of scope is as it was before. -/
structure Database.IsMirror (listed : List ClusterObject) (before after : Database) : Prop where
  holds : ∀ o ∈ listed, after.Holds k o
  primary : ∀ row ∈ after.rows k.table.name, ∃ id : ObjectId, k.table.Names row id ∧
    (inScope id.ns = true → ∃ o ∈ listed, o.id = id ∧ ∃ m, k.map o = .ok m ∧ row = m.row)
  owners : ∀ h ∈ k.holdings, ∀ row ∈ after.rows h.1.name, ∃ id : ObjectId,
    h.1.ownedBy h.2 id.entityId row = true ∧ (inScope id.ns = true → ∃ o ∈ listed, o.id = id)
  removed : ∀ id : ObjectId, [id.ns, id.name] ∈ keys → inScope id.ns = true →
    (∀ o ∈ listed, o.id ≠ id) → ∀ h ∈ k.holdings, after.find h.1 h.2 (.id id.entityId) = []
  outside : SameOutside k inScope keys before after

end Mirrors

namespace Mirrored

variable {k : Kind} {inScope : String → Bool} {keys : List (List String)} {d₀ d d' : Database}
  {listed : List ClusterObject} {gone : List ObjectId}

theorem start (h : d₀.Cold k inScope keys) : Mirrored k inScope keys d₀ [] [] d₀ where
  sound := h.sound
  within := fun o ho => nomatch ho
  holds := fun o ho => nomatch ho
  named := h.primary
  owners := by
    intro t ht row hrow
    obtain ⟨p, hp, hcell⟩ := h.owners t ht row hrow
    obtain ⟨id, hid, hnames⟩ := h.primary p hp
    exact ⟨id, hid, Table.ownedBy_iff.mpr (hcell.trans hnames.id), Or.inr ⟨p, hp, hnames⟩⟩
  removed := fun id hid => nomatch hid
  outside := ⟨fun _ _ _ _ _ => rfl, fun _ _ _ _ _ _ => rfl⟩

/-- Nothing of this is about the database but its rows. -/
theorem sameOn (hs : SameOn (fun _ => True) d d') (hm : Mirrored k inScope keys d₀ listed gone d) :
    Mirrored k inScope keys d₀ listed gone d' := by
  have hrows : d'.rows = d.rows := funext fun n => hs n trivial
  have hfind := hs.find_eq
  obtain ⟨hsound, hwithin, hholds, hnamed, howners, hremoved, hobjects, htelemetry⟩ := hm
  refine ⟨hsound.sameOn (fun _ => trivial) hs, hwithin, ?_, ?_, ?_, ?_, ?_, ?_⟩
  · simpa only [Holds, hfind] using hholds
  · simpa only [hrows] using hnamed
  · simpa only [hrows] using howners
  · simpa only [hfind] using hremoved
  · simpa only [hfind] using hobjects
  · simpa only [hfind] using htelemetry

/-- The containers of an upserted pod are kept under containers of this pod. -/
theorem anchored (hm : Mirrored k inScope keys d₀ listed gone d) {o : ClusterObject}
    (ho : o ∈ listed) {m : Mapped} (hmap : k.map o = .ok m) {s : Relation} (hs : s ∈ m.replaced)
    (hperm : (d.find s.table s.foreignKey (.id o.id.entityId)).Perm (s.table.latest s.rows)) :
    s.foreignKey ∈ s.table.key ∨
      ∀ row ∈ d.find s.table s.foreignKey (.id o.id.entityId), Anchored keys row := by
  have hd := Kind.map_describes hmap
  refine (k.sets_key (hd.mem_replaced hs)).imp_right fun hcontainer row hrow => ?_
  obtain ⟨pod, name, hin, hcells⟩ := hd.anchored s hs (Prod.mk.inj hcontainer).1 row
    (Table.mem_of_mem_latest (hperm.mem_iff.mp hrow))
  exact ⟨pod, name, hm.within o ho m hmap hin, hcells⟩

/-- What is held of an upserted object stays, if a step leaves the rows under its identity. -/
theorem holds_of_find (hm : Mirrored k inScope keys d₀ listed gone d) {o : ClusterObject}
    (ho : o ∈ listed)
    (hfind : ∀ t ∈ k.holdings, (t.2 ∈ t.1.key ∨
      ∀ row ∈ d.find t.1 t.2 (.id o.id.entityId), Anchored keys row) →
        d'.find t.1 t.2 (.id o.id.entityId) = d.find t.1 t.2 (.id o.id.entityId)) :
    d'.Holds k o := by
  obtain ⟨m, hmap, hrow, hsets⟩ := hm.holds o ho
  have hd := Kind.map_describes hmap
  refine ⟨m, hmap, ?_, fun s hs => ?_⟩
  · rw [hfind _ k.primary_mem.1 (Or.inl k.primary_mem.2)]
    exact hrow
  · rw [hfind _ (k.sets_subset (hd.mem_replaced hs)) (hm.anchored ho hmap hs (hsets s hs))]
    exact hsets s hs

theorem listed_key (hm : Mirrored k inScope keys d₀ listed gone d) {o : ClusterObject}
    (ho : o ∈ listed) : [o.id.ns, o.id.name] ∈ keys := by
  obtain ⟨m, hmap, -⟩ := hm.holds o ho
  rw [← (Kind.map_describes hmap).objectId]
  exact hm.within o ho m hmap List.mem_cons_self

/-! ## One step -/

section Seen
variable {o : ClusterObject} {m : Mapped} {trace : List Exchange} {taken : List Write}

/-- An upsert of another object in scope adds it to those that are there. -/
theorem seen (hkeys : Distinct keys) (hcold : d₀.Cold k inScope keys)
    (hm : Mirrored k inScope keys d₀ listed [] d) (hmap : k.map o = .ok m) (hin : m.keys ⊆ keys)
    (hscope : inScope o.id.ns = true) (hnew : ∀ o' ∈ listed, o'.id ≠ o.id)
    (h : Changes (fun _ => True) (m.plan k ++ taken) d d')
    (htaken : ∀ w ∈ taken, Sync.IsSnapshot m trace w)
    (hreported : ∀ metrics, (⟨.usage m.objectId, (.ok (some metrics) :
      Except ClientError (Option ClusterObject))⟩ : Exchange) ∈ trace →
        ∀ us, ContainerUsage.ofMetrics o.id metrics = .ok us →
          ∀ u ∈ us, [o.id.ns, o.id.name, u.containerName] ∈ keys) :
    Mirrored k inScope keys d₀ (listed ++ [o]) [] d' := by
  have hd := Kind.map_describes hmap
  have hkey : [o.id.ns, o.id.name] ∈ keys := by
    rw [← hd.objectId]
    exact hin List.mem_cons_self
  -- every write brings rows of this object only, so `Holdings` keeps those of all others
  have hbrings : ∀ w ∈ m.plan k ++ taken, w.Brings k keys o.id.entityId := by
    intro w hw
    rcases List.mem_append.mp hw with hw | hw
    · exact hd.plan_brings hin w hw
    · exact hd.snapshot_brings hin (htaken w hw) hreported
  have hother : ∀ q : ObjectId, [q.ns, q.name] ∈ keys → q ≠ o.id → q.entityId ≠ o.id.entityId :=
    fun q hq hne he => hne (hkeys.object_inj hq hkey he)
  have hlast : ∃ o' ∈ listed ++ [o], o'.id = o.id :=
    ⟨o, List.mem_append_right _ List.mem_cons_self, rfl⟩
  refine
    { sound := h.sound (fun w hw => (hbrings w hw).sane) hm.sound
      within := ?_
      holds := ?_
      named := ?_
      owners := ?_
      removed := fun id hid => nomatch hid
      outside := ⟨?_, ?_⟩ }
  · intro o' ho' m' hmap'
    rcases List.mem_append.mp ho' with ho' | ho'
    · exact hm.within o' ho' m' hmap'
    · obtain rfl := List.mem_singleton.mp ho'
      obtain rfl := Except.ok.inj (hmap.symm.trans hmap')
      exact hin
  · intro o' ho'
    rcases List.mem_append.mp ho' with ho' | ho'
    · have hne := hother o'.id (hm.listed_key ho') (hnew o' ho')
      exact hm.holds_of_find ho' fun t ht => h.find_other hkeys hbrings hm.sound ht hne
    · obtain rfl := List.mem_singleton.mp ho'
      exact ⟨m, hmap, hd.find_primary htaken h trivial (hm.sound _ k.table_mem), fun s hs =>
        hd.find_set htaken h hs trivial (hm.sound _ (k.sets_mem (hd.mem_replaced hs)))⟩
  · intro row hrow
    rw [hd.primary_rows htaken h trivial] at hrow
    rcases Table.mem_put (Schema.lawful k.table_mem) hd.row_takes (hm.sound _ k.table_mem).fits hrow
      with rfl | hrow
    · exact ⟨o.id, hkey, hd.row_names⟩
    · exact hm.named row hrow
  · intro t ht row hrow
    rcases h.mem_brought hbrings hm.sound ht row hrow with howned | hrow
    · exact ⟨o.id, hkey, howned, Or.inl hlast⟩
    · obtain ⟨id, hid, howned, hfrom⟩ := hm.owners t ht row hrow
      refine ⟨id, hid, howned, hfrom.imp_left ?_⟩
      rintro ⟨o', ho', rfl⟩
      exact ⟨o', List.mem_append_left _ ho', rfl⟩
  · intro q hq hout t ht
    have hne : q ≠ o.id := by
      rintro rfl
      rw [hscope] at hout
      cases hout
    have hfind := hm.outside.objects q hq hout t ht
    rw [h.find_other hkeys hbrings hm.sound ht (hother q hq hne), hfind]
    by_cases htable : t.2 ∈ t.1.key
    · exact Or.inl htable
    · -- a table of containers: here it matters under which identities the rows were at the start
      rw [hfind]
      exact Or.inr (hcold.anchored t ht htable q hq hout)
  · intro hpod q hq hout e he
    rw [Table.find_id, h.frame trivial (hd.telemetry_frame htaken), ← Table.find_id]
    exact hm.outside.telemetry hpod q hq hout e he

end Seen

theorem deleted (hkeys : Distinct keys) (hm : Mirrored k inScope keys d₀ listed gone d)
    {id : ObjectId} (hid : [id.ns, id.name] ∈ keys) (hscope : inScope id.ns = true)
    (hnew : ∀ o ∈ listed, o.id ≠ id) (h : Changes (fun _ => True) (k.removal id.entityId) d d') :
    Mirrored k inScope keys d₀ listed (id :: gone) d' := by
  have hother : ∀ q : ObjectId, [q.ns, q.name] ∈ keys → q ≠ id → q.entityId ≠ id.entityId :=
    fun q hq hne he => hne (hkeys.object_inj hq hid he)
  have hne : ∀ q : ObjectId, inScope q.ns = false → q ≠ id := by
    rintro q hout rfl
    rw [hscope] at hout
    cases hout
  have hsub : ∀ t ∈ k.holdings, ∀ row ∈ d'.rows t.1.name, row ∈ d.rows t.1.name := by
    intro t ht row hrow
    rw [Kind.removed_direct h (Kind.mem_holdings.mp ht) trivial] at hrow
    exact (List.mem_filter.mp hrow).1
  refine
    { sound := h.sound (fun w hw => Kind.removal_sane hw) hm.sound
      within := hm.within
      holds := ?_
      named := fun row hrow => hm.named row (hsub _ k.primary_mem.1 row hrow)
      owners := fun t ht row hrow => hm.owners t ht row (hsub t ht row hrow)
      removed := ?_
      outside := ⟨?_, ?_⟩ }
  · intro o ho
    have hfree := hother o.id (hm.listed_key ho) (hnew o ho)
    exact hm.holds_of_find ho fun t ht _ => (Kind.removed_find h ht).2 _ hfree
  · intro id' hid' t ht
    by_cases he : id'.entityId = id.entityId
    · rw [he]
      exact (Kind.removed_find h ht).1
    · rw [(Kind.removed_find h ht).2 _ he]
      rcases List.mem_cons.mp hid' with rfl | hid'
      · exact absurd rfl he
      · exact hm.removed id' hid' t ht
  · intro q hq hout t ht
    rw [(Kind.removed_find h ht).2 _ (hother q hq (hne q hout))]
    exact hm.outside.objects q hq hout t ht
  · rintro rfl q hq hout e he
    have hthere : ∃ row ∈ d.find Schema.container "pod_id" (.id q.entityId),
        cellAt row 0 = .id e := by
      rw [hm.outside.objects q hq hout _ Kind.containers_held]
      exact he
    rw [Kind.removed_telemetry h hm.sound (hother q hq (hne q hout)) hthere]
    exact hm.outside.telemetry rfl q hq hout e he

/-! ## The end of the way -/

theorem isMirror (hkeys : Distinct keys) (hm : Mirrored k inScope keys d₀ listed gone d)
    (hall : ∀ id : ObjectId, inScope id.ns = true →
      (∃ p ∈ d₀.rows k.table.name, k.table.Names p id) →
        (∃ o ∈ listed, o.id = id) ∨ id ∈ gone) :
    IsMirror k inScope keys listed d₀ d := by
  have hlisted : ∀ h ∈ k.holdings, ∀ row ∈ d.rows h.1.name, ∃ id : ObjectId,
      [id.ns, id.name] ∈ keys ∧ h.1.ownedBy h.2 id.entityId row = true ∧
        (inScope id.ns = true → ∃ o ∈ listed, o.id = id) := by
    intro h hh row hrow
    obtain ⟨id, hid, howned, hfrom⟩ := hm.owners h hh row hrow
    refine ⟨id, hid, howned, fun hscope => ?_⟩
    rcases hfrom with hlisted | hfrom
    · exact hlisted
    · -- a row of an object from the start that is not listed: the object is deleted by now
      refine (hall id hscope hfrom).resolve_right fun hgone => ?_
      have hin : row ∈ d.find h.1 h.2 (.id id.entityId) := by
        rw [Table.find_id]
        exact List.mem_filter.mpr ⟨hrow, howned⟩
      rw [hm.removed id hgone h hh] at hin
      cases hin
  refine
    { holds := hm.holds
      primary := fun row hrow => ?_
      owners := fun h hh row hrow => (hlisted h hh row hrow).imp fun id hid => hid.2
      removed := fun id hid hscope hnew h hh => ?_
      outside := hm.outside }
  · obtain ⟨id, hid, hnames⟩ := hm.named row hrow
    obtain ⟨id', hid', howned, hlisted⟩ := hlisted _ k.primary_mem.1 row hrow
    have hcell : k.table.cell row "id" = .id id'.entityId := Table.ownedBy_iff.mp howned
    obtain rfl := hkeys.object_inj hid hid' (Cell.id_inj.mp (hnames.id.symm.trans hcell))
    refine ⟨id, hnames, fun hscope => ?_⟩
    obtain ⟨o, ho, rfl⟩ := hlisted hscope
    obtain ⟨m, hmap, hfind, -⟩ := hm.holds o ho
    refine ⟨o, ho, rfl, m, hmap, ?_⟩
    have hin : row ∈ d.find k.table "id" (.id o.id.entityId) := by
      rw [Table.find_id]
      exact List.mem_filter.mpr ⟨hrow, howned⟩
    rw [hfind] at hin
    exact List.mem_singleton.mp hin
  · rw [Table.find_id, List.filter_eq_nil_iff]
    intro row hrow howned
    obtain ⟨id', hid', howned', hlisted⟩ := hlisted h hh row hrow
    obtain rfl := hkeys.object_inj hid hid' (Cell.id_inj.mp
      ((Table.ownedBy_iff.mp howned).symm.trans (Table.ownedBy_iff.mp howned')))
    obtain ⟨o, ho, he⟩ := hlisted hscope
    exact hnew o ho he

end Mirrored

end KubeLedger
