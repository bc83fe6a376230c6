import KubeLedger.Proofs.Holdings
import KubeLedger.Proofs.Tandem

/- References between tables. Some columns name the row of another table: of the object that a row
   belongs to, or of a label in the dictionary (`Schema.references`). A database is intact if every
   such row is there (`Database.Intact`).

   A write keeps this if what it brings refers to rows that are there, and what it takes is referred
   to no more (`Write.Safe`). What a sync has written before can be relied on for that: an upsert
   leaves a row under each key, a deletion no row of the owner (`Write.Settled`). Neither is undone
   by later writes of the same sync, nor by the sync of the other kind, because the tables that are
   upserted into, replaced in and removed from are kept apart (`Kind.Does.spares`). -/
namespace KubeLedger

open Database

/-- A column that names rows of another table by their identity. -/
structure Reference where
  table : Table
  column : String
  target : Table
deriving DecidableEq

def Schema.references : List Reference :=
  [⟨podCondition, "pod_id", pod⟩, ⟨podLabel, "pod_id", pod⟩, ⟨container, "pod_id", pod⟩,
    ⟨containerLogs, "pod_id", pod⟩, ⟨podMetrics, "pod_id", pod⟩, ⟨podLabel, "label_id", label⟩,
    ⟨claimCondition, "pvc_id", claim⟩, ⟨claimLabel, "pvc_id", claim⟩,
    ⟨claimLabel, "label_id", label⟩]

namespace Database

def Has (d : Database) (t : Table) (c : Cell) : Prop := ∃ r ∈ d.rows t.name, t.cell r "id" = c

def Resolves (d : Database) (t : Table) (rows : List Row) : Prop :=
  ∀ f ∈ Schema.references, f.table.name = t.name → ∀ r ∈ rows,
    d.Has f.target (f.table.cell r f.column)

def Intact (d : Database) : Prop :=
  ∀ f ∈ Schema.references, ∀ r ∈ d.rows f.table.name, d.Has f.target (f.table.cell r f.column)

end Database

def Write.Safe (d : Database) : Write → Prop
  | .upsert u rows => d.Resolves u.table rows
  | .replace t _ _ rows =>
    (∀ f ∈ Schema.references, f.target.name ≠ t.name) ∧ d.Resolves t rows
  | .delete step e => ∀ f ∈ Schema.references, f.target.name = step.table.name →
    step = .direct f.target "id" ∧ ∀ r ∈ d.rows f.table.name, f.table.ownedBy f.column e r = false

/-! ## One write -/

theorem Reference.target_key {f : Reference} (hf : f ∈ Schema.references) :
    f.target.indexOf? "id" = some 0 ∧ f.target.keyAt = [0] := by
  have hall : ∀ f ∈ Schema.references,
      f.target.indexOf? "id" = some 0 ∧ f.target.keyAt = [0] := by decide
  exact hall f hf

theorem Reference.tables_mem {f : Reference} (hf : f ∈ Schema.references) :
    f.table ∈ Schema.tables ∧ f.target ∈ Schema.tables := by
  have hall : ∀ f ∈ Schema.references, f.table ∈ Schema.tables ∧ f.target ∈ Schema.tables := by
    decide
  exact hall f hf

/-- What is referred to refers to nothing itself. -/
theorem Reference.target_ne {f f' : Reference} (hf : f ∈ Schema.references)
    (hf' : f' ∈ Schema.references) : f.table.name ≠ f'.target.name := by
  have hall : ∀ f ∈ Schema.references, ∀ f' ∈ Schema.references,
      f.table.name ≠ f'.target.name := by decide
  exact hall f hf f' hf'

section Apply
variable {d : Database} {w : Write} {t : Table}

/-- A direct step of a cascade removes the rows of the owner, and no others. -/
theorem Database.rows_delete (column : String) (e : EntityId) :
    (d.apply (.delete (.direct t column) e)).rows t.name =
      (d.rows t.name).filter fun r => !t.ownedBy column e r := by
  rw [← Table.deleteRows_id]
  exact rows_apply_self d (.delete (.direct t column) e)

theorem Database.has_iff {f : Reference} (hf : f ∈ Schema.references) {c : Cell} :
    d.Has f.target c ↔ ∃ r ∈ d.rows f.target.name, cellAt r 0 = c := by
  simp only [Has, Table.cell_of_indexOf (Reference.target_key hf).1]

theorem Write.Safe.has (hs : w.Safe d) (hw : w.IsSane) {f : Reference}
    (hf : f ∈ Schema.references) {r : Row} (hr : r ∈ d.rows f.table.name)
    (hhas : d.Has f.target (f.table.cell r f.column)) :
    (d.apply w).Has f.target (f.table.cell r f.column) := by
  by_cases hname : f.target.name = w.table.name
  · cases w with
    | upsert u rows =>
      obtain ⟨hu, -, htakes⟩ := hw
      obtain heq : f.target = u.table :=
        Schema.eq_of_name (Reference.tables_mem hf).2 hu hname
      have hkey : 0 ∈ u.table.keyAt := by simp [← heq, (Reference.target_key hf).2]
      rw [has_iff hf] at hhas ⊢
      rw [hname, rows_apply_self]
      exact (Table.cells_upsertRows u htakes hkey).mpr (.inl (hname ▸ hhas))
    | replace t _ _ rows => exact absurd hname (hs.1 f hf)
    | delete step e =>
      obtain ⟨rfl, hfree⟩ := hs f hf hname
      obtain ⟨p, hp, hcell⟩ := hhas
      refine ⟨p, ?_, hcell⟩
      -- a row that goes has the identity of the owner, and nothing refers to that any more
      have hkept : f.target.ownedBy "id" e p = false := by
        rw [← hfree r hr, Table.ownedBy, Table.ownedBy, hcell]
      rw [Database.rows_delete]
      exact List.mem_filter.mpr ⟨hp, by simp [hkept]⟩
  · obtain ⟨p, hp, hcell⟩ := hhas
    exact ⟨p, by rwa [rows_apply_ne d hname], hcell⟩

theorem Database.Intact.apply (h : d.Intact) (hd : d.IsSound) (hw : w.IsSane) (hs : w.Safe d) :
    (d.apply w).Intact := by
  intro f hf r hr
  rcases hd.mem_apply hw (Reference.tables_mem hf).1 hr with hold | ⟨hname, hnew⟩
  · exact hs.has hw hf hold (h f hf r hold)
  · -- the write brings the row, so it is not to the table that the row refers to
    have hresolved : d.Has f.target (f.table.cell r f.column) := by
      cases w with
      | upsert u rows => exact hs f hf hname r hnew
      | replace t _ _ rows => exact hs.2 f hf hname r hnew
      | delete step e => cases hnew
    obtain ⟨p, hp, hcell⟩ := hresolved
    have hne : f.target.name ≠ w.table.name := hname ▸ (Reference.target_ne hf hf).symm
    exact ⟨p, by rwa [rows_apply_ne d hne], hcell⟩

end Apply

/-! ## What a sync writes -/

def Kind.snapshots : Kind → List (Table × String)
  | .pod => [(Schema.containerLogs, "pod_id"), (Schema.podMetrics, "pod_id")]
  | .claim => []

/-- A write by which a sync adds what an object is in the tables. -/
inductive Write.Adds (k : Kind) (e : EntityId) : Write → Prop
  | object {row : Row} : k.table.Takes row → k.table.ownedBy "id" e row = true →
    Adds k e (.upsert ⟨k.table, .updateAll⟩ [row])
  | entries {rows : List Row} : (∀ row ∈ rows, Schema.label.Takes row) →
    Adds k e (.upsert ⟨Schema.label, .keep⟩ rows)
  | set {t : Table} {column : String} {rows : List Row} : (t, column) ∈ k.sets →
    (∀ row ∈ rows, t.Takes row ∧ t.ownedBy column e row = true) →
    Adds k e (.replace t column e rows)
  | snapshot {t : Table} {column : String} {rows : List Row} : (t, column) ∈ k.snapshots →
    (∀ row ∈ rows, t.Takes row ∧ t.ownedBy column e row = true) →
    Adds k e (.upsert ⟨t, .updateAll⟩ rows)

/-- Writes of one sync: it adds an object, or removes one. -/
def Kind.Does (k : Kind) (ws : List Write) : Prop :=
  ∃ e, (∀ w ∈ ws, w.Adds k e) ∨ ∀ w ∈ ws, w ∈ k.removal e

section Does
variable {k k' : Kind} {e : EntityId} {o : ClusterObject} {m : Mapped} {w : Write}
  {ws ws' : List Write} {n : Notification}

theorem Kind.snapshots_mem (k : Kind) {s : Table × String} (h : s ∈ k.snapshots) :
    s.1 ∈ Schema.tables := by
  have hall : ∀ s ∈ k.snapshots, s.1 ∈ Schema.tables := by cases k <;> decide
  exact hall s h

theorem Write.Adds.sane (h : w.Adds k e) : w.IsSane := by
  cases h with
  | @object row htakes howned =>
    exact ⟨k.table_mem, .inl rfl, fun r hr => List.mem_singleton.mp hr ▸ htakes⟩
  | entries htakes => exact ⟨by decide, .inr rfl, htakes⟩
  | set hmem hrows => exact ⟨k.sets_mem hmem, fun r hr => (hrows r hr).1⟩
  | snapshot hmem hrows => exact ⟨k.snapshots_mem hmem, .inl rfl, fun r hr => (hrows r hr).1⟩

theorem Mapped.Describes.plan_adds (hd : m.Describes k o) :
    ∀ w ∈ m.plan k, w.Adds k o.id.entityId := by
  intro w hw
  rcases List.mem_cons.mp hw with rfl | hw
  · exact .object hd.row_takes hd.row_owned
  · obtain ⟨r, hr, hw⟩ := List.mem_flatMap.mp hw
    cases hdisc : r.discipline with
    | replaceSet =>
      have hrep : r ∈ m.replaced := List.mem_filter.mpr ⟨hr, by simp [hdisc]⟩
      rw [Relation.writes_replaced hdisc, List.mem_singleton] at hw
      rw [hw, hd.owner r hr, hd.id]
      exact .set (hd.mem_replaced hrep) fun row hrow => hd.id ▸ hd.rows r hrep row hrow
    | insertIfAbsent =>
      obtain ⟨htable, hrows⟩ := hd.dictionary r hr hdisc
      unfold Relation.writes at hw
      simp only [hdisc] at hw
      split at hw
      · cases hw
      · rw [List.mem_singleton.mp hw, htable]
        exact .entries hrows

theorem Mapped.Describes.snapshot_adds (hd : m.Describes k o) {trace : List Exchange}
    (hw : Sync.IsSnapshot m trace w) : w.Adds k o.id.entityId := by
  -- both tables have the container first and the pod second
  have admits : ∀ {t : Table} {c e : EntityId} {rest : Row}, t.keyAt = [0] →
      t.indexOf? "pod_id" = some 1 → rest.length + 2 = t.columns.length →
      t.Takes (.id c :: .id e :: rest) ∧
        t.ownedBy "pod_id" e (.id c :: .id e :: rest) = true := by
    intro t c e rest hat hcolumn hwidth
    exact ⟨takes_single hwidth hat, Table.ownedBy_iff.mpr (Table.cell_of_indexOf hcolumn _)⟩
  cases hw with
  | logs ls hne h =>
    obtain rfl := hd.pod hne
    have hmem : (Schema.containerLogs, "pod_id") ∈ Kind.pod.snapshots := by decide
    refine .snapshot hmem fun row hrow => ?_
    obtain ⟨l, hl, rfl⟩ := List.mem_map.mp hrow
    rw [← hd.objectId, ← (h l hl).1]
    exact admits (by decide) (by decide) rfl
  | usage metrics us hne hreported hread =>
    obtain rfl := hd.pod hne
    have hmem : (Schema.podMetrics, "pod_id") ∈ Kind.pod.snapshots := by decide
    refine .snapshot hmem fun row hrow => ?_
    obtain ⟨u, hu, rfl⟩ := List.mem_map.mp hrow
    rw [← hd.objectId, ← (ContainerUsage.ids_of_ok hread u hu).2]
    exact admits (by decide) (by decide) rfl

theorem Kind.Begins.does (h : k.Begins n ws) : k.Does ws := by
  cases h with
  | @seen o m taken _ hn hmap htaken hws =>
    have hd := Kind.map_describes hmap
    refine ⟨o.id.entityId, .inl fun w hw => ?_⟩
    rcases List.mem_append.mp (hws.subset hw) with hplan | hsnap
    · exact hd.plan_adds w hplan
    · obtain ⟨trace, hw⟩ := htaken w hsnap
      exact hd.snapshot_adds hw
  | deleted hn hws => exact ⟨n.id.entityId, .inr fun w hw => hws.subset hw⟩

theorem Kind.does_nil (k : Kind) : k.Does [] := ⟨.cluster, .inl fun _ hw => nomatch hw⟩

theorem Kind.Does.sane (h : k.Does ws) : ∀ w ∈ ws, w.IsSane := by
  obtain ⟨e, hadds | hremoves⟩ := h
  · exact fun w hw => (hadds w hw).sane
  · exact fun w hw => Kind.removal_sane (hremoves w hw)

end Does

/-! ## What a write has settled -/

/-- What an upsert brought, and what a deletion took, still shows in the database: there is a row
under each key, or no row of the owner that refers to another table. -/
def Write.Settled (d : Database) : Write → Prop
  | .upsert u rows =>
    ∀ r ∈ rows, ∀ i ∈ u.table.keyAt, ∃ s ∈ d.rows u.table.name, cellAt s i = cellAt r i
  | .replace .. => True
  | .delete step e => ∀ f ∈ Schema.references, step = .direct f.table f.column →
    ∀ r ∈ d.rows f.table.name, f.table.ownedBy f.column e r = false

/-- A write does not undo what another one has settled. -/
def Write.Spares (w : Write) : Write → Prop
  | .upsert u _ => u.table.name = w.table.name → ∃ u' rows, w = .upsert u' rows
  | .replace .. => True
  | .delete step _ => ∀ f ∈ Schema.references, step = .direct f.table f.column →
    f.table.name = w.table.name → ∃ step' e, w = .delete step' e

section Settled
variable {d : Database} {v w : Write} {k k' : Kind} {ws ws' : List Write}

theorem Write.IsSane.settles (hw : w.IsSane) : w.Settled (d.apply w) := by
  cases w with
  | upsert u rows =>
    intro r hr i hi
    rw [show u.table.name = (Write.upsert u rows).table.name from rfl, rows_apply_self]
    exact (Table.cells_upsertRows u hw.2.2 hi).mpr (.inr ⟨r, hr, rfl⟩)
  | replace t foreignKey owner rows => exact trivial
  | delete step e =>
    rintro f hf rfl r hr
    rw [Database.rows_delete] at hr
    simpa using (List.mem_filter.mp hr).2

theorem Write.Settled.apply (h : v.Settled d) (hv : v.IsSane) (hw : w.IsSane)
    (hspares : w.Spares v) : v.Settled (d.apply w) := by
  cases v with
  | upsert u rows =>
    intro r hr i hi
    obtain ⟨s, hs, hcell⟩ := h r hr i hi
    by_cases hname : u.table.name = w.table.name
    · obtain ⟨u', rows', rfl⟩ := hspares hname
      have htable : u.table = u'.table := Schema.eq_of_name hv.1 hw.1 hname
      rw [hname, rows_apply_self]
      exact (Table.cells_upsertRows u' hw.2.2 (htable ▸ hi)).mpr (.inl ⟨s, htable ▸ hs, hcell⟩)
    · exact ⟨s, by rwa [rows_apply_ne d hname], hcell⟩
  | replace t foreignKey owner rows => exact trivial
  | delete step e =>
    intro f hf hstep r hr
    by_cases hname : f.table.name = w.table.name
    · obtain ⟨step', e', rfl⟩ := hspares f hf hstep hname
      obtain ⟨p, hp⟩ : ∃ p, d.rowsAfter (.delete step' e') = (d.rows step'.table.name).filter p :=
        cascadeRows_eq_filter d step' e'
      rw [hname, rows_apply_self, hp] at hr
      exact h f hf hstep r (hname ▸ (List.mem_filter.mp hr).1)
    · rw [rows_apply_ne d hname] at hr
      exact h f hf hstep r hr

theorem Write.spares_of_ne (hne : v.table.name ≠ w.table.name) : w.Spares v := by
  cases v with
  | upsert u rows => exact fun hname => absurd hname hne
  | replace t foreignKey owner rows => exact trivial
  | delete step e =>
    rintro f - rfl hname
    exact absurd hname hne

def Kind.upserted (k : Kind) : List Table := k.table :: Schema.label :: k.snapshots.map Prod.fst

theorem Kind.upserted_ne {t : Table} (ht : t ∈ k.upserted) {s : Table × String}
    (hs : s ∈ k'.sets) : t.name ≠ s.1.name := by
  have hall : ∀ k k' : Kind, ∀ t ∈ k.upserted, ∀ s ∈ k'.sets, t.name ≠ s.1.name := by
    intro k k'
    cases k <;> cases k' <;> decide
  exact hall k k' t ht s hs

theorem Kind.added_ne (hne : k ≠ k') {t : Table} (ht : t ∈ k.upserted ++ k.sets.map Prod.fst)
    {e : EntityId} (hw : w ∈ k'.removal e) : t.name ≠ w.table.name := by
  have hall : ∀ k k' : Kind, k ≠ k' → ∀ t ∈ k.upserted ++ k.sets.map Prod.fst,
      ∀ step ∈ k'.cascade ++ [.direct k'.table "id"], t.name ≠ step.table.name := by
    intro k k'
    cases k <;> cases k' <;> decide
  obtain ⟨step, hstep, rfl⟩ := List.mem_map.mp hw
  exact hall k k' hne t ht step hstep

namespace Write.Adds

variable {e e' : EntityId}

theorem cases (h : w.Adds k e) : (∃ u rows, w = .upsert u rows ∧ u.table ∈ k.upserted) ∨
    ∃ t column rows, w = .replace t column e rows ∧ (t, column) ∈ k.sets := by
  cases h with
  | object => exact .inl ⟨_, _, rfl, List.mem_cons_self⟩
  | entries => exact .inl ⟨_, _, rfl, List.mem_cons_of_mem _ List.mem_cons_self⟩
  | set hmem => exact .inr ⟨_, _, _, rfl, hmem⟩
  | snapshot hmem =>
    exact .inl ⟨_, _, rfl, List.mem_cons_of_mem _ (List.mem_cons_of_mem _
      (List.mem_map_of_mem (f := Prod.fst) hmem))⟩

theorem table_mem (h : w.Adds k e) : w.table ∈ k.upserted ++ k.sets.map Prod.fst := by
  rcases h.cases with ⟨u, rows, rfl, hmem⟩ | ⟨t, column, rows, rfl, hmem⟩
  · exact List.mem_append_left _ hmem
  · exact List.mem_append_right _ (List.mem_map_of_mem (f := Prod.fst) hmem)

theorem spares (hw : w.Adds k e) (hv : v.Adds k' e') : w.Spares v := by
  rcases hv.cases with ⟨u, rows, rfl, hu⟩ | ⟨t, column, rows, rfl, -⟩
  · rcases hw.cases with ⟨u', rows', rfl, -⟩ | ⟨t, column, rows', rfl, ht⟩
    · exact fun _ => ⟨u', rows', rfl⟩
    · exact Write.spares_of_ne (Kind.upserted_ne hu ht)
  · exact trivial

theorem not_removal (h : w.Adds k e) : w ∉ k.removal e' := by
  intro hw
  obtain ⟨step, -, rfl⟩ := List.mem_map.mp hw
  cases h

end Write.Adds

theorem Kind.removal_spares {e e' : EntityId} (hw : w ∈ k.removal e) (hv : v ∈ k'.removal e') :
    w.Spares v := by
  obtain ⟨step, -, rfl⟩ := List.mem_map.mp hw
  obtain ⟨step', -, rfl⟩ := List.mem_map.mp hv
  exact fun _ _ _ _ => ⟨step, e, rfl⟩

/-- A write of a sync undoes nothing that the sync has done, nor what the other kind has. -/
theorem Kind.Does.spares (h : k.Does (ws ++ [w])) (h' : k'.Does ws') (hsame : k = k' → ws' = ws)
    (hv : v ∈ ws') : w.Spares v := by
  obtain ⟨e, hadds | hremoves⟩ := h <;> obtain ⟨e', hadds' | hremoves'⟩ := h'
  · exact (hadds w (by simp)).spares (hadds' v hv)
  · by_cases hk : k = k'
    · subst hk
      obtain rfl := hsame rfl
      exact absurd (hremoves' v hv) (hadds v (by simp [hv])).not_removal
    · exact Write.spares_of_ne
        (Kind.added_ne hk (hadds w (by simp)).table_mem (hremoves' v hv)).symm
  · by_cases hk : k = k'
    · subst hk
      obtain rfl := hsame rfl
      exact absurd (hremoves v (by simp [hv])) (hadds' v hv).not_removal
    · exact Write.spares_of_ne
        (Kind.added_ne (Ne.symm hk) (hadds' v hv).table_mem (hremoves w (by simp)))
  · exact Kind.removal_spares (hremoves w (by simp)) (hremoves' v hv)

/-- Telemetry undoes nothing. -/
theorem Granularity.spares (g : Granularity) (rows : List Row) (v : Write) :
    (Write.upsert ⟨g.table, .updateAll⟩ rows).Spares v := by
  cases v with
  | upsert u rows' => exact fun _ => ⟨_, rows, rfl⟩
  | replace t foreignKey owner rows' => exact trivial
  | delete step e =>
    have hall : ∀ f ∈ Schema.references, f.table.name ≠ g.table.name := by
      cases g <;> decide
    exact fun f hf _ hname => absurd hname (hall f hf)

end Settled

end KubeLedger
