import KubeLedger.Proofs.Reached

/- What a completed upsert leaves behind. The writes of the plan name different tables, so each
   table can be read off by itself: the primary table is the one before with the row of the object
   put in its place (`primary_rows`), and in every table that is replaced by owner the rows of the
   object are gone and its new ones are put (`set_rows`). That no row of another object is drawn in
   by its key is plain where the owner belongs to the key. Containers have a key of their own, and
   there it needs that rows stay under keys of their pod (`apart`).

   Nothing of this depends on what was there before, which is the point: after any history of
   failed and completed syncs, an upsert that completes is exact (`upsert_exact`). -/
namespace KubeLedger

open Database

theorem Sync.IsSnapshot.table_eq {m : Mapped} {trace : List Exchange} {w : Write}
    (h : IsSnapshot m trace w) : w.table = Schema.containerLogs ∨ w.table = Schema.podMetrics := by
  cases h with
  | logs ls hne h => exact Or.inl rfl
  | usage metrics us hne hreported hread => exact Or.inr rfl

/-- The whole key of a primary table is the identity in its first column. -/
theorem Kind.table_identity (k : Kind) :
    k.table.keyAt = [0] ∧ k.table.indexOf? "id" = some 0 := by
  cases k <;> decide

theorem Mapped.Describes.row_owned {k : Kind} {o : ClusterObject} {m : Mapped}
    (hd : m.Describes k o) : k.table.ownedBy "id" o.id.entityId m.row = true :=
  Table.ownedBy_iff.mpr hd.row_names.id

namespace Mapped.Describes

variable {k : Kind} {o : ClusterObject} {m : Mapped}

/-! ## The tables of a plan are different -/

theorem snapshot_ne_primary (hd : m.Describes k o) {trace : List Exchange} {w : Write}
    (hw : Sync.IsSnapshot m trace w) : w.table.name ≠ k.table.name := by
  obtain ⟨hlogs, htail⟩ := List.nodup_cons.mp hd.tables
  have hmetrics := (List.nodup_cons.mp htail).1
  rcases hw.table_eq with h | h <;> rw [h]
  · exact fun he => hlogs (he ▸ List.mem_cons_of_mem _ List.mem_cons_self)
  · exact fun he => hmetrics (he ▸ List.mem_cons_self)

theorem snapshot_ne_relation (hd : m.Describes k o) {trace : List Exchange} {w : Write}
    (hw : Sync.IsSnapshot m trace w) {r : Relation} (hr : r ∈ m.relations) :
    w.table.name ≠ r.table.name := by
  have hmem : r.table.name ∈ m.relations.map fun r => r.table.name := List.mem_map_of_mem hr
  obtain ⟨hlogs, htail⟩ := List.nodup_cons.mp hd.tables
  have hmetrics := (List.nodup_cons.mp htail).1
  rcases hw.table_eq with h | h <;> rw [h]
  · exact fun he => hlogs (he ▸ List.mem_cons_of_mem _ (List.mem_cons_of_mem _ hmem))
  · exact fun he => hmetrics (he ▸ List.mem_cons_of_mem _ hmem)

theorem primary_ne_relation (hd : m.Describes k o) {r : Relation} (hr : r ∈ m.relations) :
    k.table.name ≠ r.table.name := by
  have hprimary := (List.nodup_cons.mp (List.nodup_cons.mp (List.nodup_cons.mp hd.tables).2).2).1
  exact fun he => hprimary (he ▸ List.mem_map_of_mem hr)

/-- A relation in its place: no other relation is of its table. -/
theorem relations_split (hd : m.Describes k o) {r : Relation} (hr : r ∈ m.relations) :
    ∃ before after, m.relations = before ++ r :: after ∧
      ∀ x ∈ before ++ after, x.table.name ≠ r.table.name := by
  obtain ⟨before, after, hsplit⟩ := List.append_of_mem hr
  refine ⟨before, after, hsplit, fun x hx hname => ?_⟩
  have hnodup := (List.nodup_cons.mp (List.nodup_cons.mp (List.nodup_cons.mp hd.tables).2).2).2
  rw [hsplit, List.map_append, List.map_cons, List.nodup_middle, ← List.map_append] at hnodup
  exact (List.nodup_cons.mp hnodup).1 (hname ▸ List.mem_map_of_mem hx)

/-- A plan writes to the primary table, the dictionary of labels, and what is replaced by owner. -/
theorem plan_tables (hd : m.Describes k o) : ∀ w ∈ m.plan k,
    w.table = k.table ∨ w.table = Schema.label ∨ ∃ s ∈ k.sets, w.table = s.1 := by
  intro w hw
  rcases List.mem_cons.mp hw with rfl | hw
  · exact Or.inl rfl
  · obtain ⟨r, hr, hw⟩ := List.mem_flatMap.mp hw
    rw [Relation.table_of_writes hw]
    cases hdisc : r.discipline with
    | replaceSet =>
      have hrep : r ∈ m.replaced := List.mem_filter.mpr ⟨hr, by simp [hdisc]⟩
      exact Or.inr (Or.inr ⟨_, hd.mem_replaced hrep, rfl⟩)
    | insertIfAbsent => exact Or.inr (Or.inl (hd.dictionary r hr hdisc).1)

/-! ## Table by table -/

section Rows
variable {own : String → Prop} {d d' : Database} {trace : List Exchange} {taken : List Write}

/-- After the first write of a plan, none is of the primary table. -/
theorem relations_ne_primary (hd : m.Describes k o) :
    ∀ x ∈ m.relations.flatMap Relation.writes, x.table.name ≠ k.table.name := by
  intro x hx
  obtain ⟨r, hr, hx⟩ := List.mem_flatMap.mp hx
  rw [Relation.table_of_writes hx]
  exact (hd.primary_ne_relation hr).symm

theorem primary_rows (hd : m.Describes k o) (htaken : ∀ w ∈ taken, Sync.IsSnapshot m trace w)
    (h : Changes own (m.plan k ++ taken) d d') (hown : own k.table.name) :
    d'.rows k.table.name = k.table.put m.row (d.rows k.table.name) := by
  have hsplit : m.plan k ++ taken = [] ++ .upsert ⟨k.table, .updateAll⟩ [m.row] ::
      (m.relations.flatMap Relation.writes ++ taken) := rfl
  rw [hsplit] at h
  refine h.rows_split hown trivial (fun x hx => nomatch hx) fun x hx => ?_
  rcases List.mem_append.mp hx with hx | hx
  · exact hd.relations_ne_primary x hx
  · exact hd.snapshot_ne_primary (htaken x hx)

theorem primary_rows_of_cut (hd : m.Describes k o) {ws : List Write} {w : Write} {rest : List Write}
    (hws : m.plan k = ws ++ w :: rest) (h : Changes own ws d d') (hown : own k.table.name) :
    d'.rows k.table.name = d.rows k.table.name ∨
      d'.rows k.table.name = k.table.put m.row (d.rows k.table.name) := by
  cases ws with
  | nil => exact Or.inl (h.frame hown fun x hx => nomatch hx)
  | cons x ws =>
    obtain ⟨rfl, htail⟩ := List.cons.inj hws
    have hsplit : Changes own ([] ++ .upsert ⟨k.table, .updateAll⟩ [m.row] :: ws) d d' := h
    refine Or.inr (hsplit.rows_split hown trivial (fun x hx => nomatch hx) fun x hx => ?_)
    refine hd.relations_ne_primary x ?_
    rw [htail]
    exact List.mem_append_left _ hx

theorem set_rows (hd : m.Describes k o) (htaken : ∀ w ∈ taken, Sync.IsSnapshot m trace w)
    (h : Changes own (m.plan k ++ taken) d d') {r : Relation} (hr : r ∈ m.replaced)
    (hown : own r.table.name) :
    d'.rows r.table.name = upsertRows ⟨r.table, .updateAll⟩ r.rows
      ((d.rows r.table.name).filter fun row => !r.table.ownedBy r.foreignKey m.id row) := by
  obtain ⟨hmem, hdisc⟩ := List.mem_filter.mp hr
  obtain ⟨before, after, hsplit, hother⟩ := hd.relations_split hmem
  have hwrites := Relation.writes_replaced (of_decide_eq_true hdisc)
  have hplan : m.plan k ++ taken =
      (.upsert ⟨k.table, .updateAll⟩ [m.row] :: before.flatMap Relation.writes) ++
        .replace r.table r.foreignKey r.owner r.rows ::
          (after.flatMap Relation.writes ++ taken) := by
    simp [Mapped.plan, hsplit, hwrites]
  -- every other write of the plan is of another table
  have others : ∀ {rs : List Relation}, rs ⊆ before ++ after →
      ∀ x ∈ rs.flatMap Relation.writes, x.table.name ≠ r.table.name := by
    intro rs hrs x hx
    obtain ⟨r', hr', hx⟩ := List.mem_flatMap.mp hx
    rw [Relation.table_of_writes hx]
    exact hother r' (hrs hr')
  rw [hplan] at h
  have hrows := h.rows_split hown trivial ?_ ?_
  · rw [← Table.deleteRows_id, ← hd.owner r hmem]
    exact hrows
  · intro x hx
    rcases List.mem_cons.mp hx with rfl | hx
    · exact hd.primary_ne_relation hmem
    · exact others (List.subset_append_left before after) x hx
  · intro x hx
    rcases List.mem_append.mp hx with hx | hx
    · exact others (List.subset_append_right before after) x hx
    · exact hd.snapshot_ne_relation (htaken x hx) hmem

/-- Afterwards the row of the object is the one that it maps to. -/
theorem find_primary (hd : m.Describes k o) (htaken : ∀ w ∈ taken, Sync.IsSnapshot m trace w)
    (h : Changes own (m.plan k ++ taken) d d') (hown : own k.table.name)
    (hsound : k.table.Sound (d.rows k.table.name)) :
    d'.find k.table "id" (.id o.id.entityId) = [m.row] := by
  obtain ⟨hkey, hid⟩ := k.table_identity
  rw [Table.find_id, hd.primary_rows htaken h hown]
  exact Table.owned_put (Schema.lawful k.table_mem) hkey hid hd.row_takes hd.row_owned hsound

/-- Afterwards the rows of the object in a table where they are replaced are those it maps to. -/
theorem find_set (hd : m.Describes k o) (htaken : ∀ w ∈ taken, Sync.IsSnapshot m trace w)
    (h : Changes own (m.plan k ++ taken) d d') {r : Relation} (hr : r ∈ m.replaced)
    (hown : own r.table.name) (hsound : r.table.Sound (d.rows r.table.name)) :
    (d'.find r.table r.foreignKey (.id o.id.entityId)).Perm (r.table.latest r.rows) := by
  rw [Table.find_id, ← hd.id, hd.set_rows htaken h hr hown]
  exact Table.owned_replace (Schema.lawful (k.sets_mem (hd.mem_replaced hr)))
    (fun row hrow => (hd.rows r hr row hrow).1) hsound fun row hrow => (hd.rows r hr row hrow).2

theorem telemetry_frame (hd : m.Describes k o) (htaken : ∀ w ∈ taken, Sync.IsSnapshot m trace w) :
    ∀ w ∈ m.plan k ++ taken, w.table.name ≠ Schema.containerMetric.name := by
  intro w hw
  rcases List.mem_append.mp hw with hw | hw
  · rcases hd.plan_tables w hw with h | h | ⟨s, hs, h⟩ <;> rw [h]
    · cases k <;> decide
    · decide
    · have hall : ∀ s ∈ k.sets, s.1.name ≠ Schema.containerMetric.name := by cases k <;> decide
      exact hall s hs
  · rcases (htaken w hw).table_eq with h | h <;> rw [h] <;> decide

end Rows

theorem apart {keys : List (List String)} (hkeys : Distinct keys) (hd : m.Describes k o)
    (hm : m.keys ⊆ keys) {r : Relation} (hr : r ∈ m.replaced) {row : Row}
    (hanchored : r.table = Schema.container → Anchored keys row)
    (hfree : r.table.ownedBy r.foreignKey m.id row = false) :
    ∀ n ∈ r.rows, r.table.sameKey row n = false := by
  intro n hn
  obtain ⟨htakes, howned⟩ := hd.rows r hr n hn
  refine Table.apart hkeys htakes howned hfree ((k.sets_key (hd.mem_replaced hr)).imp_right ?_)
  intro hcontainer
  obtain ⟨htable, hforeign⟩ := Prod.mk.inj hcontainer
  rw [htable, hforeign]
  obtain ⟨pod, name, hin, hcells⟩ := hd.anchored r hr htable n hn
  exact ⟨by decide, ⟨pod, name, hm hin, hcells⟩, hanchored htable⟩

end Mapped.Describes

/-! ## Upserts are exact -/

/-- The writes of an upsert that succeeded: its plan, and snapshots. -/
theorem Sync.upsert_ok {k : Kind} {c : ReconcilerConfig} {o : ClusterObject} {id : ObjectId}
    {trace : List Exchange} (h : (Sync.upsert k c o).Runs trace (.ok id)) :
    ∃ m taken, k.map o = .ok m ∧ id = o.id ∧ written trace = m.plan k ++ taken ∧
      ∀ w ∈ taken, IsSnapshot m trace w := by
  rcases upsert_inv h with ⟨e, -, -, he⟩ | ⟨m, hmap, ⟨e, he, -⟩ | hrest⟩
  · cases he
  · cases he
  · obtain ⟨before, after, taken, rfl, -, hall, htaken, hid⟩ := hrest
    refine ⟨m, written after, hmap, ?_, by rw [written_append, hall], fun w hw => ?_⟩
    · cases taken with
      | error e => cases hid
      | ok u =>
        cases hid
        exact (Kind.map_describes hmap).objectId
    · have hasked := written_subset_asked after hw
      exact ((snapshots_inv htaken).1 w hasked).mono (List.subset_append_right before after)

/-- What an upsert that succeeded has done. -/
theorem Reconciler.seen_ok {σ : Type} {env : Surroundings σ} {db : σ → Database}
    {own : String → Prop} (henv : env.Keeps db own) {r r' : Reconciler} {n : Notification}
    {o : ClusterObject} {w w' : σ} (hn : n.object = some o)
    (hrun : (r.sync n).runIn env w = (.ok r', w')) :
    r' = { r with known := r.known.insert o.id } ∧ ∃ m trace taken, r.kind.map o = .ok m ∧
      Changes own (m.plan r.kind ++ taken) (db w) (db w') ∧
        ∀ x ∈ taken, Sync.IsSnapshot m trace x := by
  obtain ⟨trace, hruns, halong⟩ := Sync.runIn_iff.mp hrun
  obtain ⟨result, hupsert, hresult⟩ := (Sync.sync_seen hn).mp hruns
  cases result with
  | error e => cases hresult
  | ok id =>
    obtain ⟨m, taken, hmap, rfl, hwritten, htaken⟩ := Sync.upsert_ok hupsert
    cases hresult
    exact ⟨rfl, m, trace, taken, hmap, hwritten ▸ henv.changes halong, htaken⟩

/-- History does not matter to an upsert that succeeds. In every database that syncs of any objects
reach, however they ended, it leaves one row with the identity of the object, the one that the
object maps to, and as rows of the object in every table that it replaces the last mapped row of
each key. The rows of all others in these tables stay as they are, in their order. -/
theorem upsert_exact {keys : List (List String)} (hkeys : Distinct keys) {σ : Type}
    {env : Surroundings σ} {db : σ → Database} (henv : env.Keeps db fun _ => True)
    {r r' : Reconciler} {o : ClusterObject} {w w' : σ} (hreached : Reached keys (db w))
    (hwithin : (Notification.seen o).keys r.kind ⊆ keys)
    (hrun : (r.sync (.seen o)).runIn env w = (.ok r', w')) :
    ∃ m, r.kind.map o = .ok m ∧
      (db w').find r.kind.table "id" (.id o.id.entityId) = [m.row] ∧
      (((db w').rows r.kind.table.name).filter fun x =>
          !r.kind.table.ownedBy "id" o.id.entityId x) =
        (((db w).rows r.kind.table.name).filter fun x =>
          !r.kind.table.ownedBy "id" o.id.entityId x) ∧
      ∀ s ∈ m.replaced,
        ((db w').find s.table s.foreignKey (.id o.id.entityId)).Perm (s.table.latest s.rows) ∧
        (((db w').rows s.table.name).filter fun x =>
            !s.table.ownedBy s.foreignKey o.id.entityId x) =
          (((db w).rows s.table.name).filter fun x =>
            !s.table.ownedBy s.foreignKey o.id.entityId x) := by
  have htidy := hreached.tidy
  obtain ⟨-, m, trace, taken, hmap, hchanges, htaken⟩ := Reconciler.seen_ok henv rfl hrun
  have hd := Kind.map_describes hmap
  have hin : m.keys ⊆ keys := by
    rwa [Notification.keys_seen (n := .seen o) rfl hmap] at hwithin
  have hsound := htidy.sound _ r.kind.table_mem
  refine ⟨m, hmap, hd.find_primary htaken hchanges trivial hsound, ?_, fun s hs => ?_⟩
  · obtain ⟨hkey, hid⟩ := r.kind.table_identity
    rw [hd.primary_rows htaken hchanges trivial]
    exact Table.others_put (Schema.lawful r.kind.table_mem) hkey hid hd.row_takes hd.row_owned
      hsound.fits
  · have hmem := r.kind.sets_mem (hd.mem_replaced hs)
    refine ⟨hd.find_set htaken hchanges hs trivial (htidy.sound _ hmem), ?_⟩
    rw [← hd.id, hd.set_rows htaken hchanges hs trivial]
    refine Table.others_replace (Schema.lawful hmem) (fun row hrow => (hd.rows s hs row hrow).1)
      (htidy.sound _ hmem).fits (fun x hx => by simpa using hx)
      (fun row hrow => (hd.rows s hs row hrow).2) fun x hx hfree n hn => ?_
    -- containers are the rows whose key does not name the owner: here the store has to be tidy
    refine hd.apart hkeys hin hs (fun htable => ?_) (by simpa using hfree) n hn
    rw [htable] at hx
    exact htidy.anchored x hx

/-- It applies where an earlier revision of the object was left half-written. -/
theorem upsert_exact_half_written :
    let r : Reconciler := ⟨.pod, { fetchLogs := false, fetchUsage := false }, .empty⟩
    let old := Notification.seen (barePod "default" "web-1" ["old"])
    let half := ((r.sync old).runIn World.answer { store := { failing := ["pod_label"] } }).2
    let new := barePod "default" "web-1" ["new"]
    ∃ r' w' m, (r.sync (.seen new)).runIn World.answer { half with store := half.store.clear } =
        (.ok r', w') ∧
      Kind.pod.map new = .ok m ∧
      w'.store.database.find Schema.pod "id" (.id new.id.entityId) = [m.row] := by
  intro r old half new
  let keys := [["default", "web-1"], ["default", "web-1", "old"], ["default", "web-1", "new"]]
  have hkeys : Distinct keys := ⟨by decide, by decide, by decide +kernel⟩
  have hold : old.keys r.kind ⊆ keys := by decide +kernel
  have hnew : (Notification.seen new).keys r.kind ⊆ keys := by decide +kernel
  obtain ⟨result, hhalf⟩ : ∃ result,
      (r.sync old).runIn World.answer { store := { failing := ["pod_label"] } } = (result, half) :=
    ⟨_, rfl⟩
  have hreached := Reached.sync World.keeps hold .empty hhalf
  obtain ⟨r', w', hrun⟩ : ∃ r' w', (r.sync (.seen new)).runIn World.answer
      { half with store := half.store.clear } = (.ok r', w') := ⟨_, _, rfl⟩
  have hexact := fun hdb => upsert_exact hkeys World.keeps hdb hnew hrun
  obtain ⟨m, hmap, hrow, -⟩ := hexact hreached
  exact ⟨r', w', m, hrun, hmap, hrow⟩
end KubeLedger
