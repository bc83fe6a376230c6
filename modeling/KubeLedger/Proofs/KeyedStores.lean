import KubeLedger.Proofs.Effects
import KubeLedger.Proofs.Merges
import KubeLedger.Proofs.Refinement

/- A store in memory is a keyed map. It searches lists for keys, and is given writes of all kinds in any
   order, some of which it refuses, be it that a row does not fit or that its table was made to fail.
   Whatever came before (`Memory.after`), no two rows of a table share a key, and a batch is merged into
   its table row by row (`Memory.IsMap`).

   What carries this from one write to the next is that each table holds rows that it takes in, under
   different keys (`Memory.IsHeld`). Of the writes it asks that no key holds a double: NaN has no equal,
   so a row under it would be added each time. -/
namespace KubeLedger

open Database

instance : DecidablePred Cell.IsExact
  | .float _ => .isFalse fun h => h
  | .null | .bool _ | .int _ | .text _ | .binary _ => .isTrue trivial

/-- A write to a table of a catalog, of rows with no double in their keys. They may have any number of
values. -/
structure Write.IsKeyed (catalog : Catalog) (w : Write) : Prop where
  table : w.table ∈ catalog.tables
  exact : ∀ r ∈ w.rows, ∀ i ∈ w.table.keyAt, (cellAt r i).IsExact

instance (catalog : Catalog) : DecidablePred (Write.IsKeyed catalog) := fun w =>
  decidable_of_iff (w.table ∈ catalog.tables ∧
    ∀ r ∈ w.rows, ∀ i ∈ w.table.keyAt, (cellAt r i).IsExact)
    ⟨fun h => ⟨h.1, h.2⟩, fun h => ⟨h.table, h.exact⟩⟩

/-- What can happen to a store in memory. -/
inductive MemoryMove where
  /-- It is given a write. -/
  | write (w : Write)
  /-- Writes to a table are made to fail. -/
  | fail (table : String)
  /-- Nothing fails any more. -/
  | clear

/-- A move that writes only what is keyed. -/
def MemoryMove.IsKeyed (catalog : Catalog) : MemoryMove → Prop
  | .write w => w.IsKeyed catalog
  | .fail _ | .clear => True

instance (catalog : Catalog) : DecidablePred (MemoryMove.IsKeyed catalog)
  | .write w => inferInstanceAs (Decidable (w.IsKeyed catalog))
  | .fail _ | .clear => .isTrue trivial

namespace Memory

def move (m : Memory) : MemoryMove → Memory
  | .write w => (m.write w).2
  | .fail table => m.fail table
  | .clear => m.clear

/-- The store after moves, one after another. -/
def after (m : Memory) (moves : List MemoryMove) : Memory := moves.foldl move m

/-- A store in memory is a keyed map, for tables of a catalog. -/
structure IsMap (catalog : Catalog) (m : Memory) : Prop where
  /-- No two rows of a table agree in all columns of the key. -/
  unique : ∀ t ∈ catalog.tables, ((m.rows t).map t.keyOf).Nodup
  /-- A batch that is taken in is merged into its table. No other table changes. -/
  merged : ∀ u batch n m', (Write.upsert u batch).IsKeyed catalog →
    m.write (.upsert u batch) = (.ok n, m') →
      n = batch.length ∧ Table.Merged u batch (m.rows u.table) (m'.rows u.table) ∧
        ∀ name, name ≠ u.table.name → m'.database.rows name = m.database.rows name
  /-- Two batches in a row are one, in what they leave and in what they return. -/
  split : ∀ (u : Upsert) (xs ys : List Row), (∀ r ∈ xs ++ ys, u.table.Fits r) →
    let first := m.write (.upsert u xs)
    let second := first.2.write (.upsert u ys)
    let whole := m.write (.upsert u (xs ++ ys))
    whole.1 = (do return (← first.1) + (← second.1)) ∧
      ∀ name, whole.2.database.rows name = second.2.database.rows name
  /-- A batch is as good as its rows, one after another. -/
  single : ∀ (u : Upsert) (batch : List Row), (∀ r ∈ batch, u.table.Fits r) →
    ∀ name, (m.write (.upsert u batch)).2.database.rows name =
      (m.after (batch.map fun r => .write (.upsert u [r]))).database.rows name
  /-- A write is refused if its table was made to fail or one of its rows does not fit, and only then. -/
  refused : ∀ w, (∃ e, (m.write w).1 = .error e) ↔
    w.table.name ∈ m.failing ∨ ∃ r ∈ w.rows, ¬ w.table.Fits r
  /-- A write that is refused changes no table. -/
  harmless : ∀ w e m', m.write w = (.error e, m') →
    ∀ name, m'.database.rows name = m.database.rows name

end Memory

/-! ## One write -/

section Write
variable {catalog : Catalog} {m m' : Memory} {w : Write}

namespace Memory

theorem write_eq_applied (hfits : ∀ r ∈ w.rows, w.table.Fits r) (h : w.table.name ∉ m.failing) :
    m.write w = (.ok (m.database.affected w), m.applied w) := by
  have hrefusal : m.refusal? w = none := by
    simp [refusal?, checkShape_ok_iff.mpr hfits, h]
  rw [write, hrefusal]

theorem write_eq_failed (hfits : ∀ r ∈ w.rows, w.table.Fits r) (h : w.table.name ∈ m.failing) :
    m.write w = (.error (.injected w.table.name), m) := by
  have hrefusal : m.refusal? w = some (.injected w.table.name) := by
    simp [refusal?, checkShape_ok_iff.mpr hfits, h]
  rw [write, hrefusal]

theorem refused_iff : (∃ e, (m.write w).1 = .error e) ↔
    w.table.name ∈ m.failing ∨ ∃ r ∈ w.rows, ¬ w.table.Fits r := by
  by_cases hfits : ∀ r ∈ w.rows, w.table.Fits r
  · have hnot : ¬ ∃ r ∈ w.rows, ¬ w.table.Fits r := by simpa using hfits
    by_cases hfailing : w.table.name ∈ m.failing
    · simp [write_eq_failed hfits hfailing, hfailing]
    · simp [write_eq_applied hfits hfailing, hfailing, hnot]
  · have hsome : ∃ e, m.refusal? w = some e := by
      cases hshape : checkShape w.table w.rows with
      | ok _ => exact absurd (checkShape_ok_iff.mp hshape) hfits
      | error e => exact ⟨e, by simp [refusal?, hshape]⟩
    obtain ⟨e, he⟩ := hsome
    have hbad : ∃ r ∈ w.rows, ¬ w.table.Fits r := by simpa using hfits
    simp only [write, he, hbad, or_true, iff_true]
    exact ⟨e, rfl⟩

theorem write_ok {n : Nat} (h : m.write w = (.ok n, m')) :
    (∀ r ∈ w.rows, w.table.Fits r) ∧ n = m.database.affected w ∧ m' = m.applied w := by
  have hgood : ¬ ∃ e, (m.write w).1 = .error e := by
    rw [h]
    rintro ⟨e, he⟩
    cases he
  rw [refused_iff, not_or] at hgood
  have hfits : ∀ r ∈ w.rows, w.table.Fits r := by simpa using hgood.2
  rw [write_eq_applied hfits hgood.1] at h
  cases h
  exact ⟨hfits, rfl, rfl⟩

theorem write_error {e : StoreError} (h : m.write w = (.error e, m')) : m' = m := by
  obtain ⟨_, hcase⟩ | ⟨_, hcase⟩ := m.write_cases w
  · rw [h] at hcase
    exact (Prod.mk.inj hcase).2
  · rw [h] at hcase
    cases hcase

end Memory

end Write

/-! ## A batch in parts -/

namespace Memory

theorem rows_applied_upsert (m : Memory) (u : Upsert) (batch : List Row) (name : String) :
    (m.applied (.upsert u batch)).database.rows name =
      if name = u.table.name then upsertRows u batch (m.rows u.table)
      else m.database.rows name := by
  split
  · rename_i hname
    subst hname
    exact rows_apply_self m.database (.upsert u batch)
  · exact rows_apply_ne m.database (w := .upsert u batch) ‹_›

theorem write_append (m : Memory) (u : Upsert) (xs ys : List Row)
    (hfits : ∀ r ∈ xs ++ ys, u.table.Fits r) :
    let first := m.write (.upsert u xs)
    let second := first.2.write (.upsert u ys)
    let whole := m.write (.upsert u (xs ++ ys))
    whole.1 = (do return (← first.1) + (← second.1)) ∧
      ∀ name, whole.2.database.rows name = second.2.database.rows name := by
  obtain ⟨hxs, hys⟩ := List.forall_mem_append.mp hfits
  intro first second whole
  by_cases hfailing : u.table.name ∈ m.failing
  · have hfirst : first = (.error (.injected u.table.name), m) :=
      write_eq_failed (w := .upsert u xs) hxs hfailing
    have hsecond : second = (.error (.injected u.table.name), m) := by
      show first.2.write _ = _
      rw [hfirst]
      exact write_eq_failed (w := .upsert u ys) hys hfailing
    have hwhole : whole = (.error (.injected u.table.name), m) :=
      write_eq_failed (w := .upsert u (xs ++ ys)) hfits hfailing
    rw [hfirst, hsecond, hwhole]
    exact ⟨rfl, fun _ => rfl⟩
  · have hfirst : first = (.ok xs.length, m.applied (.upsert u xs)) :=
      write_eq_applied (w := .upsert u xs) hxs hfailing
    have hsecond : second = (.ok ys.length, (m.applied (.upsert u xs)).applied (.upsert u ys)) := by
      show first.2.write _ = _
      rw [hfirst]
      exact write_eq_applied (w := .upsert u ys) hys hfailing
    have hwhole : whole = (.ok (xs ++ ys).length, m.applied (.upsert u (xs ++ ys))) :=
      write_eq_applied (w := .upsert u (xs ++ ys)) hfits hfailing
    rw [hfirst, hsecond, hwhole]
    refine ⟨by rw [List.length_append]; rfl, fun name => ?_⟩
    simp only [rows_applied_upsert, rows, if_true, upsertRows_append]
    split <;> rfl

theorem write_single (m : Memory) (u : Upsert) {batch : List Row}
    (hfits : ∀ r ∈ batch, u.table.Fits r) (name : String) :
    (m.write (.upsert u batch)).2.database.rows name =
      (m.after (batch.map fun r => .write (.upsert u [r]))).database.rows name := by
  induction batch generalizing m with
  | nil =>
    by_cases hfailing : u.table.name ∈ m.failing
    · rw [write_eq_failed (w := .upsert u []) hfits hfailing]
      rfl
    · rw [write_eq_applied (w := .upsert u []) hfits hfailing]
      show (m.applied (.upsert u [])).database.rows name = m.database.rows name
      rw [rows_applied_upsert]
      split
      · rename_i hname
        rw [hname]
        rfl
      · rfl
  | cons r rest ih =>
    have hrest := ih (m.write (.upsert u [r])).2 (List.forall_mem_cons.mp hfits).2
    exact ((m.write_append u [r] rest hfits).2 name).trans hrest

end Memory

/-! ## Moves in any order -/

section Moves
variable {catalog : Catalog} {m m' : Memory}

/-- Each table holds rows that it takes in, under different keys. -/
def Memory.IsHeld (catalog : Catalog) (m : Memory) : Prop :=
  ∀ t ∈ catalog.tables, t.Held (m.rows t)

namespace Memory

theorem IsHeld.empty : IsHeld catalog {} := fun _ _ => ⟨nofun, .nil⟩

theorem IsHeld.rowsAfter (h : m.IsHeld catalog) {w : Write} (hw : w.IsKeyed catalog)
    (hfits : ∀ r ∈ w.rows, w.table.Fits r) : w.table.Held (m.database.rowsAfter w) := by
  have hstored := h w.table hw.table
  have htakes : ∀ r ∈ w.rows, w.table.Takes r := fun r hr => ⟨hfits r hr, hw.exact r hr⟩
  cases w with
  | upsert u batch => exact Table.held_upsertRows htakes hstored
  | replace t foreignKey owner batch =>
    exact Table.held_upsertRows (u := ⟨t, .updateAll⟩) htakes (Table.held_deleteRows hstored)
  | delete step owner =>
    cases step with
    | direct t column => exact Table.held_deleteRows hstored
    | through t column via viaColumn => exact Table.held_deleteRows hstored

/-- A move keeps what the tables hold in order. -/
theorem IsHeld.move (h : m.IsHeld catalog) {move : MemoryMove} (hmove : move.IsKeyed catalog) :
    (m.move move).IsHeld catalog := by
  cases move with
  | fail table => exact h
  | clear => exact h
  | write w =>
    show IsHeld catalog (m.write w).2
    obtain ⟨e, hcase⟩ | ⟨n, hcase⟩ := m.write_cases w
    · rw [hcase]
      exact h
    · obtain ⟨hfits, -, -⟩ := write_ok hcase
      rw [hcase]
      intro t ht
      by_cases hname : t.name = w.table.name
      · obtain rfl := catalog.unique t ht w.table hmove.table hname
        show w.table.Held ((m.database.apply w).rows w.table.name)
        rw [rows_apply_self]
        exact h.rowsAfter hmove hfits
      · show t.Held ((m.database.apply w).rows t.name)
        rw [rows_apply_ne _ hname]
        exact h t ht

theorem IsHeld.after {moves : List MemoryMove} (h : m.IsHeld catalog)
    (hmoves : ∀ move ∈ moves, move.IsKeyed catalog) : (m.after moves).IsHeld catalog := by
  induction moves generalizing m with
  | nil => exact h
  | cons move rest ih =>
    obtain ⟨hmove, hrest⟩ := List.forall_mem_cons.mp hmoves
    exact ih (h.move hmove) hrest

theorem IsHeld.isMap (h : m.IsHeld catalog) : m.IsMap catalog where
  unique t ht := (h t ht).nodup_keys
  merged := by
    intro u batch n m' hw hdone
    obtain ⟨hfits, hcount, rfl⟩ := write_ok hdone
    refine ⟨hcount, ?_, fun name hname => ?_⟩
    · have hself : (m.applied (.upsert u batch)).rows u.table = upsertRows u batch (m.rows u.table) :=
        (rows_applied_upsert ..).trans (if_pos rfl)
      rw [hself]
      exact Table.merged (fun r hr => ⟨hfits r hr, hw.exact r hr⟩) (h u.table hw.table)
    · rw [rows_applied_upsert, if_neg hname]
  split u xs ys hfits := m.write_append u xs ys hfits
  single u batch hfits := m.write_single u hfits
  refused _ := refused_iff
  harmless := by
    intro w e m' hrefused name
    rw [write_error hrefused]

end Memory

/-- Whatever an empty store in memory was given, and whatever it refused, it is a keyed map. -/
theorem memory_is_map {moves : List MemoryMove} (h : ∀ move ∈ moves, move.IsKeyed catalog) :
    (Memory.after {} moves).IsMap catalog := (Memory.IsHeld.empty.after h).isMap

end Moves

namespace Schema

/-- Moves of a store that holds tables of the ledger: after some writes, labels fail for a while, one
batch has a row that is too short, and one has a key twice and refreshes a column of the key. -/
@[irreducible]
def someMoves : List MemoryMove :=
  let one : EntityId := ⟨List.replicate 20 3, rfl⟩
  let two : EntityId := ⟨List.replicate 20 4, rfl⟩
  someWrites.map .write ++
    [.write (.upsert ⟨label, .keep⟩ [[.id one, .text "app", .text "api"]]),
     .fail "label", .write (.upsert ⟨label, .updateAll⟩ [[.id two, .text "app", .null]]), .clear,
     .write (.upsert ⟨label, .updateAll⟩ [[.id two, .text "app", .null], [.id two]]),
     .write (.upsert ⟨label, .update ["id", "value"]⟩
      [[.id two, .text "app", .null], [.id one, .text "app", .null],
        [.id two, .text "tier", .text "web"]])]

end Schema

/-- It applies to the tables of the ledger. -/
theorem memory_is_map_ledger :
    (∀ move ∈ Schema.someMoves, move.IsKeyed Schema.catalog) ∧
      (Memory.after {} Schema.someMoves).IsMap Schema.catalog ∧
      ((Memory.after {} Schema.someMoves).rows Schema.label).map (fun r => r.map Cell.text?) =
        [[none, some "app", some "web"], [none, some "app", none], [none, some "app", some "web"]] := by
  have hmoves : ∀ move ∈ Schema.someMoves, move.IsKeyed Schema.catalog := by decide +kernel
  exact ⟨hmoves, memory_is_map hmoves, by decide +kernel⟩

end KubeLedger
