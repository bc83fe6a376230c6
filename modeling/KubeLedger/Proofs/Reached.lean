import KubeLedger.Proofs.Effects
import KubeLedger.Proofs.MappedRows
import KubeLedger.Proofs.Syncs
import KubeLedger.Telemetry.Sample

/- The databases that reconcilers reach. Whatever happened to the calls of the syncs before, a
   database that nobody else writes is tidy (`Reached.tidy`): each table holds rows of its width,
   one for each key, and each row of a container carries the identity of a container of the pod
   that it refers to. It is enough that every single write keeps this (`Tidy.apply`), since every
   write that a sync asks for is proper, done or not (`sync_proper`). -/
namespace KubeLedger

open Database

/-- Each table holds rows of its width, one for each key. -/
def Database.IsSound (d : Database) : Prop := ∀ t ∈ Schema.tables, t.Sound (d.rows t.name)

/-- A sound database in which containers are kept under a key of their pod. -/
structure Database.Tidy (keys : List (List String)) (d : Database) : Prop where
  sound : d.IsSound
  anchored : ∀ r ∈ d.rows Schema.container.name, Anchored keys r

def Write.IsSane : Write → Prop
  | .upsert u rows =>
    u.table ∈ Schema.tables ∧ (u.onConflict = .updateAll ∨ u.onConflict = .keep) ∧
      ∀ r ∈ rows, u.table.Takes r
  | .replace t _ _ rows => t ∈ Schema.tables ∧ ∀ r ∈ rows, t.Takes r
  | .delete _ _ => True

def Write.Proper (keys : List (List String)) : Write → Prop
  | .upsert u rows =>
    u.table ∈ Schema.tables ∧ u.table ≠ Schema.container ∧
      (u.onConflict = .updateAll ∨ u.onConflict = .keep) ∧ ∀ r ∈ rows, u.table.Takes r
  | .replace t _ _ rows =>
    t ∈ Schema.tables ∧ (∀ r ∈ rows, t.Takes r) ∧
      (t = Schema.container → ∀ r ∈ rows, Anchored keys r)
  | .delete _ _ => True

/-! ## One write -/

theorem deleteRows_eq_filter (t : Table) (column : String) (values : List Cell) (rows : List Row) :
    ∃ p : Row → Bool, deleteRows t column values rows = rows.filter p := by
  unfold deleteRows
  cases t.indexOf? column with
  | none => exact ⟨fun _ => true, (List.filter_eq_self.mpr fun _ _ => rfl).symm⟩
  | some i => exact ⟨_, rfl⟩

theorem cascadeRows_eq_filter (d : Database) (step : Cascade) (e : EntityId) :
    ∃ p : Row → Bool, d.cascadeRows step e = (d.rows step.table.name).filter p := by
  cases step with
  | direct t column => exact deleteRows_eq_filter ..
  | through t column via viaColumn => exact deleteRows_eq_filter ..

theorem Write.Proper.sane {keys : List (List String)} {w : Write} (h : w.Proper keys) :
    w.IsSane := by
  cases w with
  | upsert u rows => exact ⟨h.1, h.2.2⟩
  | replace t foreignKey owner rows => exact ⟨h.1, h.2.1⟩
  | delete step e => exact trivial

namespace Database.IsSound

variable {d : Database}

theorem sameOn {own : String → Prop} {d' : Database} (hown : ∀ n, own n) (h : SameOn own d d')
    (hd : d.IsSound) : d'.IsSound :=
  fun t hmem => h t.name (hown _) ▸ hd t hmem

theorem rowsAfter (hd : d.IsSound) {w : Write} (hw : w.IsSane) {t : Table}
    (hmem : t ∈ Schema.tables) (hname : t.name = w.table.name) : t.Sound (d.rowsAfter w) := by
  cases w with
  | upsert u rows =>
    obtain ⟨hu, hconflict, htakes⟩ := hw
    obtain rfl : t = u.table := Schema.eq_of_name hmem hu hname
    obtain ⟨t, conflict⟩ := u
    rcases hconflict with hc | hc
    · obtain rfl : conflict = .updateAll := hc
      exact Table.sound_upsertRows (Schema.lawful hmem) htakes (hd t hmem)
    · obtain rfl : conflict = .keep := hc
      exact Table.sound_keepRows htakes (hd t hmem)
  | replace t' foreignKey owner rows =>
    obtain ⟨ht', htakes⟩ := hw
    obtain rfl : t = t' := Schema.eq_of_name hmem ht' hname
    obtain ⟨p, hp⟩ := deleteRows_eq_filter t foreignKey [.id owner] (d.rows t.name)
    have hleft : t.Sound (deleteRows t foreignKey [.id owner] (d.rows t.name)) := by
      rw [hp]
      exact Table.sound_filter p (hd t hmem)
    exact Table.sound_upsertRows (Schema.lawful hmem) htakes hleft
  | delete step e =>
    obtain ⟨p, hp⟩ : ∃ p, d.rowsAfter (.delete step e) = (d.rows step.table.name).filter p :=
      cascadeRows_eq_filter d step e
    have hname' : t.name = step.table.name := hname
    rw [hp, ← hname']
    exact Table.sound_filter p (hd t hmem)

theorem apply (hd : d.IsSound) {w : Write} (hw : w.IsSane) : (d.apply w).IsSound := by
  intro t hmem
  by_cases hname : t.name = w.table.name
  · rw [hname, rows_apply_self]
    exact hd.rowsAfter hw hmem hname
  · rw [rows_apply_ne d hname]
    exact hd t hmem

theorem mem_apply (hd : d.IsSound) {w : Write} (hw : w.IsSane) {t : Table}
    (ht : t ∈ Schema.tables) {r : Row} (hr : r ∈ (d.apply w).rows t.name) :
    r ∈ d.rows t.name ∨ t.name = w.table.name ∧ r ∈ w.rows := by
  by_cases hname : t.name = w.table.name
  · rw [hname, rows_apply_self] at hr
    have hsound := hd t ht
    cases w with
    | upsert u rows =>
      obtain ⟨hu, hconflict, htakes⟩ := hw
      obtain rfl : t = u.table := Schema.eq_of_name ht hu hname
      obtain ⟨t, conflict⟩ := u
      have hmem : r ∈ rows ∨ r ∈ d.rows t.name := by
        rcases hconflict with hc | hc
        · obtain rfl : conflict = .updateAll := hc
          exact Table.mem_upsertRows (Schema.lawful ht) htakes hsound.fits hr
        · obtain rfl : conflict = .keep := hc
          exact Table.mem_keepRows hr
      exact hmem.elim (fun h => .inr ⟨rfl, h⟩) .inl
    | replace t' foreignKey owner rows =>
      obtain ⟨ht', htakes⟩ := hw
      obtain rfl : t = t' := Schema.eq_of_name ht ht' hname
      obtain ⟨p, hp⟩ := deleteRows_eq_filter t foreignKey [.id owner] (d.rows t.name)
      rw [Database.rowsAfter, hp] at hr
      rcases Table.mem_upsertRows (Schema.lawful ht) htakes
        (Table.sound_filter p hsound).fits hr with h | h
      · exact .inr ⟨rfl, h⟩
      · exact .inl (List.mem_filter.mp h).1
    | delete step e =>
      obtain ⟨p, hp⟩ : ∃ p, d.rowsAfter (.delete step e) = (d.rows step.table.name).filter p :=
        cascadeRows_eq_filter d step e
      rw [hp] at hr
      exact .inl (hname ▸ (List.mem_filter.mp hr).1)
  · rw [rows_apply_ne d hname] at hr
    exact .inl hr

end Database.IsSound

namespace Database.Tidy

variable {keys : List (List String)} {d : Database}

theorem empty (keys : List (List String)) : Tidy keys {} where
  sound := fun t _ => Table.Sound.nil t
  anchored := fun _ hr => nomatch hr

theorem sameOn {own : String → Prop} {d' : Database} (hown : ∀ n, own n) (h : SameOn own d d')
    (ht : Tidy keys d) : Tidy keys d' where
  sound := ht.sound.sameOn hown h
  anchored := fun r hr => ht.anchored r (h Schema.container.name (hown _) ▸ hr)

theorem apply (ht : Tidy keys d) {w : Write} (hw : w.Proper keys) : Tidy keys (d.apply w) where
  sound := ht.sound.apply hw.sane
  anchored := by
    intro r hr
    have hcontainer : Schema.container ∈ Schema.tables := by decide
    rcases ht.sound.mem_apply hw.sane hcontainer hr with hold | ⟨hname, hnew⟩
    · exact ht.anchored r hold
    · cases w with
      | upsert u rows => exact absurd (Schema.eq_of_name hcontainer hw.1 hname).symm hw.2.1
      | replace t foreignKey owner rows =>
        exact hw.2.2 (Schema.eq_of_name hcontainer hw.1 hname).symm r hnew
      | delete step e => cases hnew

end Database.Tidy

/-! ## The writes of a sync -/

section Writes
variable {keys : List (List String)} {k : Kind} {o : ClusterObject} {m : Mapped}

/-- Relations are of tables of the schema, and give rows that these can take. -/
theorem Mapped.Describes.mem_replaced (hd : m.Describes k o) {r : Relation} (hr : r ∈ m.replaced) :
    (r.table, r.foreignKey) ∈ k.sets := by
  rw [← hd.sets]
  exact List.mem_map_of_mem (f := fun r : Relation => (r.table, r.foreignKey)) hr

theorem Relation.writes_replaced {r : Relation} (h : r.discipline = .replaceSet) :
    r.writes = [.replace r.table r.foreignKey r.owner r.rows] := by
  simp [Relation.writes, h]

theorem Relation.table_of_writes {r : Relation} {w : Write} (h : w ∈ r.writes) :
    w.table = r.table := by
  unfold Relation.writes at h
  cases hd : r.discipline with
  | replaceSet =>
    simp only [hd, List.mem_singleton] at h
    rw [h]
    rfl
  | insertIfAbsent =>
    simp only [hd] at h
    split at h
    · cases h
    · rw [List.mem_singleton.mp h]
      rfl

theorem Mapped.Describes.relation_proper (hd : m.Describes k o) (hkeys : m.keys ⊆ keys)
    {r : Relation} (hr : r ∈ m.relations) : ∀ w ∈ r.writes, w.Proper keys := by
  intro w hw
  cases hdisc : r.discipline with
  | replaceSet =>
    rw [Relation.writes_replaced hdisc, List.mem_singleton] at hw
    subst hw
    have hrep : r ∈ m.replaced := List.mem_filter.mpr ⟨hr, by simp [hdisc]⟩
    refine ⟨k.sets_mem (hd.mem_replaced hrep), fun row hrow => (hd.rows r hrep row hrow).1, ?_⟩
    intro htable row hrow
    obtain ⟨pod, name, hkey, hcells⟩ := hd.anchored r hrep htable row hrow
    exact ⟨pod, name, hkeys hkey, hcells⟩
  | insertIfAbsent =>
    obtain ⟨htable, hrows⟩ := hd.dictionary r hr hdisc
    unfold Relation.writes at hw
    simp only [hdisc] at hw
    split at hw
    · cases hw
    · obtain rfl := List.mem_singleton.mp hw
      refine ⟨?_, ?_, Or.inr rfl, ?_⟩ <;> simp only [htable]
      · decide
      · decide
      · exact hrows

theorem Mapped.Describes.plan_proper (hd : m.Describes k o) (hkeys : m.keys ⊆ keys) :
    ∀ w ∈ m.plan k, w.Proper keys := by
  intro w hw
  rcases List.mem_cons.mp hw with rfl | hw
  · refine ⟨k.table_mem, by cases k <;> decide, Or.inl rfl, fun r hr => ?_⟩
    obtain rfl := List.mem_singleton.mp hr
    exact hd.row_takes
  · obtain ⟨r, hr, hw⟩ := List.mem_flatMap.mp hw
    exact hd.relation_proper hkeys hr w hw

theorem Sync.IsSnapshot.proper {trace : List Exchange} {w : Write} (h : IsSnapshot m trace w) :
    w.Proper keys := by
  cases h with
  | logs ls hne h =>
    refine ⟨by decide, by decide, Or.inl rfl, fun r hr => ?_⟩
    obtain ⟨l, -, rfl⟩ := List.mem_map.mp hr
    exact takes_single rfl (by decide)
  | usage metrics us hne hreported hread =>
    refine ⟨by decide, by decide, Or.inl rfl, fun r hr => ?_⟩
    obtain ⟨u, -, rfl⟩ := List.mem_map.mp hr
    exact takes_single rfl (by decide)

theorem Sync.upsert_proper {c : ReconcilerConfig} {trace : List Exchange}
    {r : Except SyncError ObjectId} (h : (Sync.upsert k c o).Runs trace r)
    (hkeys : ∀ m, k.map o = .ok m → m.keys ⊆ keys) : ∀ w ∈ asked trace, w.Proper keys := by
  intro w hw
  obtain ⟨m, hmap, hplan | hsnapshot⟩ := upsert_asked h hw
  · exact (Kind.map_describes hmap).plan_proper (hkeys m hmap) w hplan
  · exact hsnapshot.proper

theorem Kind.removal_proper {e : EntityId} {w : Write} (hw : w ∈ k.removal e) : w.Proper keys := by
  obtain ⟨step, -, rfl⟩ := List.mem_map.mp hw
  exact trivial

theorem Kind.removal_sane {e : EntityId} {w : Write} (hw : w ∈ k.removal e) : w.IsSane :=
  have hproper : w.Proper [] := Kind.removal_proper hw
  hproper.sane

theorem Sync.delete_proper {id : ObjectId} {trace : List Exchange} {r : Except SyncError Unit}
    (h : (Sync.delete k id).Runs trace r) : ∀ w ∈ asked trace, w.Proper keys :=
  fun _ hw => Kind.removal_proper ((delete_follows k id h).1 hw)

end Writes

theorem Reconciler.sync_proper {keys : List (List String)} {r : Reconciler} {n : Notification}
    {trace : List Exchange} {result : Except SyncError Reconciler}
    (h : (r.sync n).Runs trace result) (hkeys : n.keys r.kind ⊆ keys) :
    ∀ w ∈ asked trace, w.Proper keys := by
  cases hn : n.object with
  | some o =>
    obtain ⟨r', hr', -⟩ := (Sync.sync_seen hn).mp h
    exact Sync.upsert_proper hr' fun m hm => Notification.keys_seen hn hm ▸ hkeys
  | none =>
    obtain ⟨r', hr', -⟩ := (Sync.sync_deleted hn).mp h
    exact Sync.delete_proper hr'

/-! ## Reached databases -/

/-- The databases that syncs and telemetry reach from nothing, whatever their surroundings are and
however the syncs end. -/
inductive Reached (keys : List (List String)) : Database → Prop
  | empty : Reached keys {}
  | sync {σ : Type} {env : Surroundings σ} {db : σ → Database} {w w' : σ} {r : Reconciler}
    {n : Notification} {result : Except SyncError Reconciler} :
    env.Keeps db (fun _ => True) → n.keys r.kind ⊆ keys → Reached keys (db w) →
    (r.sync n).runIn env w = (result, w') → Reached keys (db w')
  | telemetry {d : Database} (g : Granularity) (records : List TelemetryRecord) :
    Reached keys d →
    Reached keys (d.apply (.upsert ⟨g.table, .updateAll⟩ (records.map TelemetryRecord.row)))

theorem TelemetryRecord.row_takes (g : Granularity) (record : TelemetryRecord) :
    g.table.Takes record.row := by
  obtain ⟨hwidth, hkey⟩ : g.table.columns.length = 5 ∧ g.table.keyAt = [0, 1, 2, 3] := by
    cases g <;> decide
  refine ⟨hwidth.symm, fun i hi => ?_⟩
  rw [hkey] at hi
  fin_cases hi <;> exact trivial

theorem telemetry_proper {keys : List (List String)} (g : Granularity)
    (records : List TelemetryRecord) :
    (Write.upsert ⟨g.table, .updateAll⟩ (records.map TelemetryRecord.row)).Proper keys := by
  refine ⟨by cases g <;> decide, by cases g <;> decide, Or.inl rfl, fun r hr => ?_⟩
  obtain ⟨record, -, rfl⟩ := List.mem_map.mp hr
  exact record.row_takes g

/-- To refresh the value of telemetry is to refresh all that is outside its key. -/
theorem upsertRows_value (g : Granularity) (new rows : List Row) :
    upsertRows ⟨g.table, .update ["value"]⟩ new rows =
      upsertRows ⟨g.table, .updateAll⟩ new rows := by
  cases g <;> rfl

theorem Reached.tidy {keys : List (List String)} {d : Database} (h : Reached keys d) :
    Tidy keys d := by
  induction h with
  | empty => exact .empty keys
  | sync henv hkeys _ hrun ih =>
    obtain ⟨trace, hruns, halong⟩ := Sync.runIn_iff.mp hrun
    exact (henv.changes halong).preserves (fun hs ht => ht.sameOn (fun _ => trivial) hs)
      (fun w hw {d} ht =>
        ht.apply (Reconciler.sync_proper hruns hkeys w (written_subset_asked trace hw))) ih
  | telemetry g records _ ih => exact ih.apply (telemetry_proper g records)

end KubeLedger
