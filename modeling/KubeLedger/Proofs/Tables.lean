import KubeLedger.Proofs.Rows
import KubeLedger.Table

/- Tables by their owner. A dependent table has a column that holds the identity of the object that
   owns the row, and everything a reconciler does to it is said by that column: rows of one owner
   are replaced or removed (`owned_replace`), rows of all others stay in their place
   (`others_replace`). The second half needs that no row of another owner has the key of a new one;
   where the owner belongs to the key this is so by itself (`sameKey_owned`). -/
namespace KubeLedger

/-! ## A database table by table -/

theorem lookup_cons_ne {n m : String} (h : n ≠ m) (rows : List Row)
    (ts : List (String × List Row)) :
    List.lookup n ((m, rows) :: ts) = ts.lookup n := by
  have hbeq : (n == m) = false := by simpa using h
  rw [List.lookup_cons, hbeq]

theorem lookup_putRows (name n : String) (rows : List Row) (ts : List (String × List Row)) :
    (putRows name rows ts).lookup n = if n = name then some rows else ts.lookup n := by
  induction ts with
  | nil =>
    by_cases h : n = name
    · simp [putRows, h]
    · simp [putRows, lookup_cons_ne h, h]
  | cons p rest ih =>
    obtain ⟨m, r⟩ := p
    unfold putRows
    by_cases hm : name = m
    · subst hm
      by_cases h : n = name
      · simp [h]
      · simp [lookup_cons_ne h, h]
    · rw [if_neg hm]
      by_cases hn : n = m
      · subst hn
        simp [Ne.symm hm]
      · rw [lookup_cons_ne hn, lookup_cons_ne hn, ih]

namespace Database

theorem rows_empty (name : String) : ({} : Database).rows name = [] := rfl

@[simp] theorem rows_setRows_self (db : Database) (name : String) (rows : List Row) :
    (db.setRows name rows).rows name = rows := by
  simp [Database.rows, setRows, lookup_putRows]

theorem rows_setRows_ne (db : Database) {name n : String} (rows : List Row) (h : n ≠ name) :
    (db.setRows name rows).rows n = db.rows n := by
  simp [Database.rows, setRows, lookup_putRows, h]

theorem rows_apply_self (db : Database) (w : Write) :
    (db.apply w).rows w.table.name = db.rowsAfter w := rows_setRows_self ..

theorem rows_apply_ne (db : Database) {w : Write} {n : String} (h : n ≠ w.table.name) :
    (db.apply w).rows n = db.rows n := rows_setRows_ne db _ h

end Database

/-! ## Rows of an owner -/

def Table.ownedBy (t : Table) (column : String) (owner : EntityId) (r : Row) : Bool :=
  (t.cell r column).same (.id owner)

namespace Table

open Database

variable {t : Table} {column : String} {owner : EntityId}

theorem ownedBy_iff {r : Row} : t.ownedBy column owner r = true ↔ t.cell r column = .id owner :=
  Cell.same_id

theorem exists_indexOf (h : column ∈ t.columns) :
    ∃ i, t.indexOf? column = some i := by
  refine Option.isSome_iff_exists.mp ?_
  unfold indexOf?
  rw [List.findIdx?_isSome]
  exact List.any_eq_true.mpr ⟨column, h, by simp⟩

theorem cell_of_indexOf {i : Nat} (h : t.indexOf? column = some i) (r : Row) :
    t.cell r column = cellAt r i := by
  simp [cell, cellAt, h]

theorem ownedBy_unknown (h : t.indexOf? column = none) (r : Row) :
    t.ownedBy column owner r = false := by
  simp [ownedBy, cell, h, Cell.same, Cell.id]

theorem ownedBy_unique {other : EntityId} {r : Row} (h : t.ownedBy column owner r = true)
    (hne : owner ≠ other) : t.ownedBy column other r = false := by
  by_contra ho
  have h₁ := ownedBy_iff.mp h
  have h₂ := ownedBy_iff.mp (by simpa using ho : t.ownedBy column other r = true)
  exact hne (Cell.id_inj.mp (h₁.symm.trans h₂))

theorem deleteRows_id (rows : List Row) :
    deleteRows t column [.id owner] rows = rows.filter fun r => !t.ownedBy column owner r := by
  unfold deleteRows
  split
  · rename_i i hi
    refine List.filter_congr fun r _ => ?_
    have : holds i [.id owner] r = t.ownedBy column owner r := by
      rw [Bool.eq_iff_iff, ownedBy_iff, cell_of_indexOf hi]
      simp only [holds, List.any_cons, List.any_nil, Bool.or_false]
      exact (Cell.same_iff_left (a := .id owner) trivial).trans eq_comm
    rw [this]
  · rename_i hi
    simp [ownedBy_unknown hi]

theorem owned_deleteRows (values : List Cell) (rows : List Row) :
    (.id owner ∈ values → (deleteRows t column values rows).filter (t.ownedBy column owner) = []) ∧
      (.id owner ∉ values → (deleteRows t column values rows).filter (t.ownedBy column owner) =
        rows.filter (t.ownedBy column owner)) := by
  cases hi : t.indexOf? column with
  | none => simp [deleteRows, hi, ownedBy_unknown hi]
  | some i =>
    have hholds : ∀ r, t.ownedBy column owner r = true →
        (holds i values r = true ↔ Cell.id owner ∈ values) := by
      intro r hr
      rw [ownedBy_iff, cell_of_indexOf hi] at hr
      simp only [holds, List.any_eq_true, hr, Cell.same_id, exists_eq_right]
    simp only [deleteRows, hi, List.filter_filter]
    refine ⟨fun hin => List.filter_eq_nil_iff.mpr fun r _ => ?_,
      fun hnot => List.filter_congr fun r _ => ?_⟩
    · cases hr : t.ownedBy column owner r
      · simp
      · simp [(hholds r hr).mpr hin]
    · cases hr : t.ownedBy column owner r
      · rfl
      · simpa using fun h => hnot ((hholds r hr).mp h)

/-- Removing rows by other values leaves those of an exact one. -/
theorem find_deleteRows {d d' : Database} {values : List Cell} {c : Cell} (hc : c.IsExact)
    (hrows : d'.rows t.name = deleteRows t column values (d.rows t.name)) (hnot : c ∉ values) :
    d'.find t column c = d.find t column c := by
  unfold Database.find
  cases hi : t.indexOf? column with
  | none => rfl
  | some i =>
    simp only [hrows, deleteRows, hi, List.filter_filter]
    refine List.filter_congr fun r _ => ?_
    cases hr : (cellAt r i).same c with
    | false => rfl
    | true =>
      rw [Cell.same_iff hc] at hr
      have hholds : ¬ holds i values r = true := by
        simp only [holds, List.any_eq_true, hr, Cell.same_iff hc, exists_eq_right]
        exact hnot
      simpa using hholds

theorem cells_deleteRows {i : Nat} (hi : t.indexOf? column = some i) {values : List Cell}
    {rows : List Row} :
    (∃ r ∈ deleteRows t column values rows, cellAt r i = .id owner) ↔
      (∃ r ∈ rows, cellAt r i = .id owner) ∧ Cell.id owner ∉ values := by
  have howned : ∀ rows : List Row, (∃ r ∈ rows, cellAt r i = .id owner) ↔
      ∃ r, r ∈ rows.filter (t.ownedBy column owner) := by
    intro rows
    simp only [List.mem_filter, ownedBy_iff, cell_of_indexOf hi]
  rw [howned, howned]
  by_cases h : Cell.id owner ∈ values
  · rw [(owned_deleteRows values rows).1 h]
    simp [h]
  · rw [(owned_deleteRows values rows).2 h]
    simp [h]

theorem find_id (db : Database) :
    db.find t column (.id owner) = (db.rows t.name).filter (t.ownedBy column owner) := by
  unfold Database.find
  split
  · rename_i i hi
    exact List.filter_congr fun r _ => by simp [ownedBy, cell_of_indexOf hi]
  · rename_i hi
    simp [ownedBy_unknown hi]

/-- A row shares its key only with rows of its owner, if the owner belongs to the key. -/
theorem sameKey_owned (hkey : column ∈ t.key) {r new : Row} (hn : t.Takes new)
    (ho : t.ownedBy column owner new = true) (hk : t.sameKey r new = true) :
    t.ownedBy column owner r = true := by
  cases hi : t.indexOf? column with
  | none => rw [ownedBy_unknown hi] at ho; cases ho
  | some i =>
    have hat : i ∈ t.keyAt := List.mem_filterMap.mpr ⟨column, hkey, hi⟩
    rw [ownedBy_iff, cell_of_indexOf hi] at ho ⊢
    rw [hn.sameKey_iff.mp hk i hat, ho]

/-! ## The row of an identity -/

section Identity
variable {i : Nat} {new : Row} {rows : List Row}

theorem sameKey_identity (hkey : t.keyAt = [i]) (hi : t.indexOf? column = some i)
    (hn : t.Takes new) (ho : t.ownedBy column owner new = true) (r : Row) :
    t.sameKey r new = t.ownedBy column owner r := by
  rw [ownedBy_iff, cell_of_indexOf hi] at ho
  rw [Bool.eq_iff_iff, hn.sameKey_iff, ownedBy_iff, cell_of_indexOf hi, hkey]
  simp [ho]

theorem owned_put (h : t.Lawful) (hkey : t.keyAt = [i]) (hi : t.indexOf? column = some i)
    (hn : t.Takes new) (ho : t.ownedBy column owner new = true) (hs : t.Sound rows) :
    (t.put new rows).filter (t.ownedBy column owner) = [new] := by
  have hperm := (put_perm h hn hs).filter (t.ownedBy column owner)
  have hothers : (rows.filter fun r => !t.sameKey r new).filter (t.ownedBy column owner) = [] := by
    refine List.filter_eq_nil_iff.mpr fun r hr => ?_
    have := (List.mem_filter.mp hr).2
    rw [sameKey_identity hkey hi hn ho] at this
    simpa using this
  rw [List.filter_cons_of_pos ho, hothers] at hperm
  exact List.perm_singleton.mp hperm

theorem others_put (h : t.Lawful) (hkey : t.keyAt = [i]) (hi : t.indexOf? column = some i)
    (hn : t.Takes new) (ho : t.ownedBy column owner new = true) (hf : ∀ r ∈ rows, t.Fits r) :
    ((t.put new rows).filter fun r => !t.ownedBy column owner r) =
      rows.filter fun r => !t.ownedBy column owner r := by
  refine filter_put h hn hf (by simp [ho]) fun r _ hk => ?_
  rw [sameKey_identity hkey hi hn ho] at hk
  simp [hk]

end Identity

/-! ## Replacing the rows of an owner -/

section Replace
variable {new rows : List Row}

theorem sound_filter (p : Row → Bool) (hs : t.Sound rows) : t.Sound (rows.filter p) :=
  ⟨fun r hr => hs.fits r (List.mem_filter.mp hr).1, hs.keyed.sublist List.filter_sublist⟩

/-- The rows of the owner afterwards: the last new row of each key. -/
theorem owned_replace (h : t.Lawful) (hn : ∀ r ∈ new, t.Takes r) (hs : t.Sound rows)
    (ho : ∀ r ∈ new, t.ownedBy column owner r = true) :
    ((upsertRows ⟨t, .updateAll⟩ new (rows.filter fun r => !t.ownedBy column owner r)).filter
      (t.ownedBy column owner)).Perm (t.latest new) := by
  have hperm := (upsertRows_perm h hn
    (sound_filter (fun r => !t.ownedBy column owner r) hs)).filter (t.ownedBy column owner)
  refine hperm.trans ?_
  have hlatest : ∀ r ∈ t.latest new, t.ownedBy column owner r = true := by
    intro r hr
    exact ho r (mem_of_mem_latest hr)
  rw [List.filter_append, List.filter_eq_self.mpr hlatest, List.filter_eq_nil_iff.mpr]
  · exact List.Perm.refl _
  · intro r hr
    have := (List.mem_filter.mp (List.mem_filter.mp hr).1).2
    simpa using this

/-- The rows of all others stay in their place, unless one has the key of a new row. -/
theorem others_replace (h : t.Lawful) (hn : ∀ r ∈ new, t.Takes r) (hf : ∀ r ∈ rows, t.Fits r)
    {p : Row → Bool} (hp : ∀ r, p r = true → t.ownedBy column owner r = false)
    (ho : ∀ r ∈ new, t.ownedBy column owner r = true)
    (hk : ∀ r ∈ rows, p r = true → ∀ n ∈ new, t.sameKey r n = false) :
    (upsertRows ⟨t, .updateAll⟩ new (rows.filter fun r => !t.ownedBy column owner r)).filter p =
      rows.filter p := by
  have hnew : ∀ n ∈ new, p n = false := by
    intro n hnew
    by_contra hpn
    have := hp n (by simpa using hpn)
    rw [ho n hnew] at this
    cases this
  rw [filter_upsertRows h hn (fun r hr => hf r (List.mem_filter.mp hr).1) hnew, List.filter_filter]
  · refine List.filter_congr fun r _ => ?_
    cases hpr : p r
    · rfl
    · simp [hp r hpr]
  · intro r hr n hnew hkey
    by_contra hpr
    have := hk r (List.mem_filter.mp hr).1 (by simpa using hpr) n hnew
    rw [hkey] at this
    cases this

end Replace

end Table

/-! ## The schema -/

namespace Schema

theorem lawful {t : Table} (h : t ∈ tables) : t.Lawful := by
  have hall : ∀ t ∈ tables, t.columns.Nodup ∧ ∀ c ∈ t.key, c ∈ t.columns := by decide
  exact ⟨(hall t h).1, (hall t h).2⟩

theorem eq_of_name {t t' : Table} (h : t ∈ tables) (h' : t' ∈ tables) (hn : t.name = t'.name) :
    t = t' := by
  have hall : ∀ t ∈ tables, ∀ t' ∈ tables, t.name = t'.name → t = t' := by decide
  exact hall t h t' h' hn

/-! Where rows hold what they are found by. -/

theorem container_key : container.key.head?.bind container.indexOf? = some 0 := by decide

theorem container_pod : container.indexOf? "pod_id" = some 1 := by decide

theorem containerMetric_container : containerMetric.indexOf? "container_id" = some 0 := by decide

theorem label_id : label.indexOf? "id" = some 0 := by decide

end Schema

end KubeLedger
