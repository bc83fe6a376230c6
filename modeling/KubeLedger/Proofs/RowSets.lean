import KubeLedger.Proofs.Merges
import KubeLedger.Proofs.Relational

/- Sets of rows and lists of rows. A store in memory searches the list of a table for the first row of
   a key; a statement is about every row that has it. They do the same as long as no two rows of a
   table share a key (`Table.Settled`), which upserts and deletions preserve.

   Equality must agree, too: in a list null is equal to null, and in the condition of a statement it
   is not. So no key may hold null, nor a double, whose equality is neither reflexive nor exact
   (`Cell.IsKeyable`). -/
namespace KubeLedger

open Database

/-! ## Keys that can be compared -/

/-- A value that a key can hold: neither null nor a double. -/
def Cell.IsKeyable : Cell → Prop
  | .null => False
  | .float _ => False
  | _ => True

namespace Cell

instance : DecidablePred IsKeyable
  | .null | .float _ => .isFalse fun h => h
  | .bool _ | .int _ | .text _ | .binary _ => .isTrue trivial

theorem IsKeyable.exact {c : Cell} (h : c.IsKeyable) : c.IsExact := by
  cases c with
  | float => exact h.elim
  | _ => trivial

theorem equals_iff {a b : Cell} (h : b.IsKeyable) : a.equals b = true ↔ a = b := by
  cases b with
  | null | float => exact h.elim
  | _ => cases a <;> simp [equals, same]

end Cell

namespace Table

variable {t : Table} {new : Row} {rows : List Row} {updated : List Nat}

/-- A row that fits, with a key that can be compared. -/
structure Storable (t : Table) (r : Row) : Prop where
  fits : t.Fits r
  keyable : ∀ i ∈ t.keyAt, (cellAt r i).IsKeyable

theorem Storable.takes {r : Row} (h : t.Storable r) : t.Takes r :=
  ⟨h.fits, fun i hi => (h.keyable i hi).exact⟩

/-- Rows that can be stored, no two of which share a key. -/
structure Settled (t : Table) (rows : List Row) : Prop where
  storable : ∀ r ∈ rows, t.Storable r
  keyed : t.Keyed rows

theorem clash_iff (hkey : ∀ c ∈ t.key, c ∈ t.columns) (hn : t.Storable new) {r : Row} :
    t.Clash r new ↔ t.sameKey r new = true := by
  rw [hn.takes.sameKey_iff]
  constructor
  · intro h i hi
    obtain ⟨c, hc, hindex⟩ := List.mem_filterMap.mp hi
    have hequal := h c hc
    rw [cell_of_indexOf hindex, cell_of_indexOf hindex] at hequal
    exact (Cell.equals_iff (hn.keyable i hi)).mp hequal
  · intro h c hc
    obtain ⟨i, hindex⟩ := exists_indexOf (hkey c hc)
    have hi : i ∈ t.keyAt := List.mem_filterMap.mpr ⟨c, hc, hindex⟩
    rw [cell_of_indexOf hindex, cell_of_indexOf hindex]
    exact (Cell.equals_iff (hn.keyable i hi)).mpr (h i hi)

/-! ## One row -/

/-- The rows after an upsert: those of other keys, and the row of its key refreshed, or the new row
if there is none. -/
theorem mem_upsertRow (hn : t.Takes new) (hkeyed : t.Keyed rows) {r : Row} :
    r ∈ upsertRow t.keyAt updated new rows ↔
      (r ∈ rows ∧ t.sameKey r new = false) ∨
      (∃ stored ∈ rows, t.sameKey stored new = true ∧ r = refresh updated stored new) ∨
      (r = new ∧ ∀ stored ∈ rows, t.sameKey stored new = false) := by
  rw [upsertRow_eq hn hkeyed]
  split
  · rename_i hfound
    obtain ⟨s, hfirst⟩ := Option.isSome_iff_exists.mp hfound
    obtain ⟨hs, hsame⟩ := mem_first? hfirst
    rw [List.mem_map]
    constructor
    · rintro ⟨x, hx, rfl⟩
      unfold renew
      split
      · exact .inr (.inl ⟨x, hx, ‹_›, rfl⟩)
      · exact .inl ⟨hx, Bool.eq_false_iff.mpr ‹_›⟩
    · rintro (⟨hr, hother⟩ | ⟨x, hx, hsame, rfl⟩ | ⟨-, hnone⟩)
      · exact ⟨r, hr, renew_other hother⟩
      · exact ⟨x, hx, if_pos hsame⟩
      · rw [hnone s hs] at hsame
        cases hsame
  · rename_i hnone
    have hothers := first?_eq_none_iff.mp (by simpa using hnone)
    rw [List.mem_append, List.mem_singleton]
    constructor
    · rintro (hr | rfl)
      · exact .inl ⟨hr, hothers r hr⟩
      · exact .inr (.inr ⟨rfl, hothers⟩)
    · rintro (⟨hr, -⟩ | ⟨x, hx, hsame, -⟩ | ⟨rfl, -⟩)
      · exact .inl hr
      · rw [hothers x hx] at hsame
        cases hsame
      · exact .inr rfl

theorem storable_refresh (hn : t.Storable new) {stored : Row} (hs : t.Storable stored)
    (h : t.sameKey stored new = true) : t.Storable (refresh updated stored new) := by
  refine ⟨?_, fun i hi => ?_⟩
  · simpa [Fits, refresh] using hs.fits
  · rw [cellAt_refresh (hn.takes.sameKey_iff.mp h i hi)]
    exact hn.keyable i hi

theorem settled_upsertRow (hn : t.Storable new) (h : t.Settled rows) :
    t.Settled (upsertRow t.keyAt updated new rows) := by
  refine ⟨fun r hr => ?_, keyed_upsertRow hn.takes h.keyed⟩
  rcases (mem_upsertRow hn.takes h.keyed).mp hr with
    ⟨hr, -⟩ | ⟨stored, hstored, hsame, rfl⟩ | ⟨rfl, -⟩
  · exact h.storable r hr
  · exact storable_refresh hn (h.storable stored hstored) hsame
  · exact hn

theorem settled_filter (p : Row → Bool) (h : t.Settled rows) : t.Settled (rows.filter p) :=
  ⟨fun r hr => h.storable r (List.mem_filter.mp hr).1, h.keyed.sublist List.filter_sublist⟩

/-! ## Assignments -/

theorem foldl_set (positions : List Nat) (new stored : Row) :
    positions.foldl (fun r i => r.set i (cellAt new i)) stored = refresh positions stored new := by
  induction positions generalizing stored with
  | nil => exact (refresh_nil stored new).symm
  | cons i rest ih =>
    rw [List.foldl_cons, ih]
    refine List.ext_getElem (by simp [refresh]) fun k hk hk' => ?_
    simp only [refresh, List.getElem_mapIdx, List.getElem_set, List.contains_cons]
    by_cases hrest : k ∈ rest
    · simp [hrest]
    · by_cases hik : i = k
      · simp [hik]
      · simp [hrest, hik, Ne.symm hik]

theorem foldl_fromNew (columns : List String) (new stored : Row) :
    (columns.map Assignment.fromNew).foldl (t.assign new) stored =
      refresh (positions t columns) stored new := by
  rw [← foldl_set, List.foldl_map, positions, List.foldl_filterMap]
  congr 1
  funext r c
  unfold assign assigned
  cases hindex : t.indexOf? c with
  | none => simp [Sql.target, hindex]
  | some i => simp [Sql.target, hindex, cell_of_indexOf hindex]

/-- To assign its own value to a column changes nothing. -/
theorem assign_unchanged (c : String) (new stored : Row) :
    t.assign new stored (.unchanged c) = stored := by
  unfold assign assigned
  cases hindex : t.indexOf? c with
  | none => simp [Sql.target, hindex]
  | some i =>
    simp only [Sql.target, hindex, cell_of_indexOf hindex]
    refine List.ext_getElem (by simp) fun k hk hk' => ?_
    rw [List.getElem_set]
    split
    · rename_i hik
      subst hik
      exact cellAt_eq_getElem hk'
    · rfl

theorem foldl_assignments (u : Upsert) (new stored : Row) :
    (Sql.assignments u).foldl (u.table.assign new) stored =
      refresh (positions u.table u.updated) stored new := by
  unfold Sql.assignments
  split
  · rename_i hnone
    rw [hnone, List.foldl_cons, List.foldl_nil, assign_unchanged]
    exact foldl_set [] new stored
  · exact foldl_fromNew _ new stored

/-! ## Sets of rows -/

/-- An insertion of one row does to the set of the rows what an upsert does to their list. -/
theorem inserted_eq {u : Upsert} (hkey : ∀ c ∈ u.table.key, c ∈ u.table.columns)
    {new : Row} {rows : List Row} (hn : u.table.Storable new) (h : u.table.Settled rows) :
    u.table.inserted (Sql.assignments u) {r | r ∈ rows} new =
      {r | r ∈ upsertRow u.table.keyAt (positions u.table u.updated) new rows} := by
  ext r
  simp only [inserted, Set.mem_ofPred_eq, mem_upsertRow hn.takes h.keyed, clash_iff hkey hn,
    foldl_assignments, Bool.not_eq_true]

theorem foldl_inserted {u : Upsert} (hkey : ∀ c ∈ u.table.key, c ∈ u.table.columns)
    {new rows : List Row} (hn : ∀ r ∈ new, u.table.Storable r) (h : u.table.Settled rows) :
    new.foldl (u.table.inserted (Sql.assignments u)) {r | r ∈ rows} =
        {r | r ∈ upsertRows u new rows} ∧
      u.table.Settled (upsertRows u new rows) := by
  unfold upsertRows
  induction new generalizing rows with
  | nil => exact ⟨rfl, h⟩
  | cons n rest ih =>
    obtain ⟨hfirst, hrest⟩ := List.forall_mem_cons.mp hn
    rw [List.foldl_cons, List.foldl_cons, inserted_eq hkey hfirst h]
    exact ih hrest (settled_upsertRow hfirst h)

/-- The rows whose column holds none of some keys. -/
theorem mem_deleteRows {column : String} (hc : column ∈ t.columns) {values : List Cell}
    (hvalues : ∀ v ∈ values, v.IsKeyable) (rows : List Row) :
    {r | r ∈ deleteRows t column values rows} =
      {r | r ∈ rows ∧ ¬ ∃ v ∈ values, (t.cell r column).equals v} := by
  obtain ⟨i, hindex⟩ := exists_indexOf hc
  ext r
  have hholds : holds i values r = true ↔ ∃ v ∈ values, (t.cell r column).equals v := by
    unfold holds
    rw [List.any_eq_true]
    refine exists_congr fun v => and_congr_right fun hv => ?_
    rw [cell_of_indexOf hindex, Cell.equals_iff (hvalues v hv),
      Cell.same_iff_left (hvalues v hv).exact, eq_comm]
  simp only [deleteRows, hindex, Set.mem_ofPred_eq, List.mem_filter, ← hholds, Bool.not_eq_true']
  simp

theorem settled_deleteRows {column : String} {values : List Cell} {rows : List Row}
    (h : t.Settled rows) : t.Settled (deleteRows t column values rows) := by
  unfold deleteRows
  split
  · exact settled_filter _ h
  · exact h

end Table

/-! ## What statements mean for lists -/

theorem Sql.rowsOf_flatten {width : Nat} {rows : List Row} (h : ∀ r ∈ rows, r.length = width) :
    rowsOf width rows.length rows.flatten = rows := by
  induction rows with
  | nil => rfl
  | cons r rest ih =>
    obtain ⟨hfirst, hrest⟩ := List.forall_mem_cons.mp h
    rw [List.length_cons, List.flatten_cons, rowsOf, List.take_left' hfirst, List.drop_left' hfirst,
      ih hrest]

section Meaning
variable {catalog : Catalog} {db : RowSets} {owner : EntityId} {t via : Table} {stored : List Row}
  {column viaColumn : String}

theorem Catalog.key_columns (ht : t ∈ catalog.tables) : ∀ c ∈ t.key, c ∈ t.columns :=
  (catalog.keyed t ht).2

theorem Catalog.key_head (ht : t ∈ catalog.tables) :
    t.key.head? = some (t.key.headD "") ∧ t.key.headD "" ∈ t.columns := by
  obtain ⟨c, rest, hkey⟩ := List.exists_cons_of_ne_nil (catalog.keyed t ht).1
  have hc := catalog.key_columns ht c (by rw [hkey]; exact List.mem_cons_self)
  rw [hkey]
  exact ⟨rfl, hc⟩

theorem Sql.targets_mem {u : Upsert} (ht : u.table ∈ catalog.tables)
    (hu : ∀ c ∈ u.updated, c ∈ u.table.columns) :
    Sql.assignments u ≠ [] ∧ ∀ a ∈ Sql.assignments u, target a ∈ u.table.columns := by
  unfold assignments
  split
  · refine ⟨List.cons_ne_nil _ _, fun a ha => ?_⟩
    rw [List.mem_singleton.mp ha]
    exact (catalog.key_head ht).2
  · rename_i hsome
    refine ⟨by simpa using hsome, fun a ha => ?_⟩
    obtain ⟨c, hc, rfl⟩ := List.mem_map.mp ha
    exact hu c hc

theorem Sql.plain_ofUpsert (hwords : catalog.Worded) {u : Upsert} (ht : u.table ∈ catalog.tables)
    (hu : ∀ c ∈ u.updated, c ∈ u.table.columns) {count : Nat} (hcount : 0 < count) :
    (ofUpsert u count).IsPlain := by
  obtain ⟨hname, hcolumns⟩ := hwords u.table ht
  obtain ⟨hsome, htargets⟩ := targets_mem ht hu
  refine ⟨hname, ?_, hcolumns, hcount, hsome, fun a ha => hcolumns _ (htargets a ha)⟩
  exact List.ne_nil_of_mem (catalog.key_head ht).2

theorem Sql.plain_deleteWhere (hwords : catalog.Worded) (ht : t ∈ catalog.tables)
    (hc : column ∈ t.columns) : (deleteWhere t.name column).IsPlain :=
  ⟨(hwords t ht).1, (hwords t ht).2 column hc⟩

theorem Sql.plain_deleteVia (hwords : catalog.Worded) (ht : t ∈ catalog.tables)
    (hc : column ∈ t.columns) (hvia : via ∈ catalog.tables) (hv : viaColumn ∈ via.columns) :
    (deleteVia t.name column (via.key.headD "") via.name viaColumn).IsPlain := by
  obtain ⟨hname, hcolumns⟩ := hwords t ht
  obtain ⟨hviaName, hviaColumns⟩ := hwords via hvia
  exact ⟨hname, hcolumns column hc, hviaColumns _ (catalog.key_head hvia).2, hviaName,
    hviaColumns viaColumn hv⟩

theorem Catalog.Reads.read {read : Sql → Option Sql} (h : catalog.Reads read) {s : Sql}
    (hplain : catalog.Worded → s.IsPlain) : read s = some s := by
  cases h with
  | statements => rfl
  | texts hwords => exact Sql.read?_text (hplain hwords)

theorem Sql.meaning_ofUpsert {u : Upsert} (ht : u.table ∈ catalog.tables)
    (hu : ∀ c ∈ u.updated, c ∈ u.table.columns) {new : List Row}
    (hn : ∀ r ∈ new, u.table.Storable r) (hdb : db u.table.name = {r | r ∈ stored})
    (hstored : u.table.Settled stored) :
    meaning catalog new.flatten db (ofUpsert u new.length) =
      some (Function.update db u.table.name {r | r ∈ upsertRows u new stored}) := by
  have hwidth : ∀ r ∈ new, r.length = u.table.columns.length := fun r hr => (hn r hr).fits
  have hbound : new.flatten.length = new.length * u.table.columns.length := by
    rw [List.length_flatten, List.map_congr_left hwidth, List.map_const', List.sum_replicate_nat]
  have hrows := (Table.foldl_inserted (catalog.key_columns ht) hn hstored).1
  simp only [ofUpsert, meaning, Catalog.find?_name ht, Option.bind_eq_bind, Option.bind_some,
    rowsOf_flatten hwidth, hdb, hrows, true_and]
  exact if_pos ⟨hbound, (targets_mem ht hu).2⟩

theorem Sql.meaning_deleteWhere (ht : t ∈ catalog.tables) (hc : column ∈ t.columns)
    (hdb : db t.name = {r | r ∈ stored}) :
    meaning catalog [.id owner] db (.deleteWhere t.name column) =
      some (Function.update db t.name {r | r ∈ deleteRows t column [.id owner] stored}) := by
  have hvalues : ∀ v ∈ [Cell.id owner], v.IsKeyable := by
    intro v hv
    rw [List.mem_singleton.mp hv]
    trivial
  rw [Table.mem_deleteRows hc hvalues]
  simp [meaning, Catalog.find?_name ht, hc, hdb]

theorem Sql.meaning_deleteVia (ht : t ∈ catalog.tables) (hc : column ∈ t.columns)
    (hvia : via ∈ catalog.tables) (hv : viaColumn ∈ via.columns) (d : Database)
    (hdb : ∀ name, db name = {r | r ∈ d.rows name}) (hstored : via.Settled (d.rows via.name)) :
    meaning catalog [.id owner] db (.deleteVia t.name column (via.key.headD "") via.name viaColumn) =
      some (Function.update db t.name
        {r | r ∈ deleteRows t column (d.keysVia via viaColumn owner) (d.rows t.name)}) := by
  obtain ⟨hhead, hkey⟩ := catalog.key_head hvia
  obtain ⟨i, hi⟩ := Table.exists_indexOf hkey
  obtain ⟨j, hj⟩ := Table.exists_indexOf hv
  have hat : i ∈ via.keyAt :=
    List.mem_filterMap.mpr ⟨_, List.mem_of_head? hhead, hi⟩
  -- the keys are those of the rows that the inner condition is true for
  have hkeys : ∀ k, k ∈ d.keysVia via viaColumn owner ↔
      ∃ r ∈ db via.name, (via.cell r viaColumn).equals (.id owner) ∧
        via.cell r (via.key.headD "") = k := by
    intro k
    have hequal : ∀ r, (via.cell r viaColumn).equals (.id owner) = true ↔
        (cellAt r j).same (.id owner) = true := by
      intro r
      rw [Cell.equals_iff (b := .id owner) trivial, Cell.same_id, Table.cell_of_indexOf hj]
    simp only [keysVia, hj, hhead, Option.bind_some, hi, List.mem_map, List.mem_filter, hdb, hequal,
      Table.cell_of_indexOf hi, Set.mem_ofPred_eq, and_assoc]
  have hvalues : ∀ v ∈ d.keysVia via viaColumn owner, v.IsKeyable := by
    intro v hmem
    obtain ⟨r, hr, -, rfl⟩ := (hkeys v).mp hmem
    rw [hdb] at hr
    rw [Table.cell_of_indexOf hi]
    exact (hstored.storable r hr).keyable i hat
  rw [Table.mem_deleteRows hc hvalues]
  simp only [meaning, Catalog.find?_name ht, Catalog.find?_name hvia, Option.bind_eq_bind,
    Option.bind_some, hc, hkey, hv, and_self, if_true, hkeys, hdb]
  rfl

end Meaning

end KubeLedger
