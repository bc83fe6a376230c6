import Mathlib.Data.List.Basic
import Mathlib.Data.List.Perm.Basic
import KubeLedger.Store.Memory

/- Rows by their key. The store keeps a table as a list of rows in the order of insertion and finds
   the row of a key by search, so everything that is said of a table by its keys has to be an
   invariant of the list: no two rows share a key (`Keyed`).

   Under that invariant an upsert that refreshes every column is exact: the table afterwards is the
   new row together with the rows of other keys (`upsertRow_perm`), and for a batch the rows of
   other keys together with the last row of each key in the batch (`upsertRows_perm`). Rows that
   share no key with a new one keep their place as well (`filter_upsertRows`). -/
namespace KubeLedger

/-! ## Cells that are equal -/

/-- A cell that is no double. Only doubles can be the same without being equal, or equal without
being the same. -/
def Cell.IsExact : Cell → Prop
  | .float _ => False
  | _ => True

theorem Cell.same_iff {a b : Cell} (h : b.IsExact) : a.same b = true ↔ a = b := by
  cases a <;> cases b <;> simp_all [same, IsExact]

theorem Cell.same_iff_left {a b : Cell} (h : a.IsExact) : a.same b = true ↔ a = b := by
  cases a <;> cases b <;> simp_all [same, IsExact]

theorem Cell.id_inj {a b : EntityId} : Cell.id a = .id b ↔ a = b := by
  cases a
  cases b
  simp [Cell.id]

theorem Cell.same_id {c : Cell} {e : EntityId} : c.same (.id e) = true ↔ c = .id e :=
  Cell.same_iff (b := .id e) trivial

/-! ## Rows of one key -/

namespace Database

theorem agree_iff {key : List Nat} {a b : Row} (h : ∀ i ∈ key, (cellAt b i).IsExact) :
    agree key a b = true ↔ ∀ i ∈ key, cellAt a i = cellAt b i := by
  unfold agree
  rw [List.all_eq_true]
  exact forall₂_congr fun i hi => Cell.same_iff (h i hi)

theorem agree_iff_left {key : List Nat} {a b : Row} (h : ∀ i ∈ key, (cellAt a i).IsExact) :
    agree key a b = true ↔ ∀ i ∈ key, cellAt a i = cellAt b i := by
  unfold agree
  rw [List.all_eq_true]
  exact forall₂_congr fun i hi => Cell.same_iff_left (h i hi)

theorem agree_congr {key : List Nat} {a a' b b' : Row} (ha : ∀ i ∈ key, cellAt a i = cellAt a' i)
    (hb : ∀ i ∈ key, cellAt b i = cellAt b' i) : agree key a b = agree key a' b' := by
  unfold agree
  rw [Bool.eq_iff_iff, List.all_eq_true, List.all_eq_true]
  exact forall₂_congr fun i hi => by rw [ha i hi, hb i hi]

theorem refresh_nil (stored new : Row) : refresh [] stored new = stored :=
  List.ext_getElem (by simp [refresh]) (by simp [refresh])

theorem upsertRows_append (u : Upsert) (a b rows : List Row) :
    upsertRows u (a ++ b) rows = upsertRows u b (upsertRows u a rows) := List.foldl_append

end Database

namespace Table

open Database

def keyAt (t : Table) : List Nat := positions t t.key

def sameKey (t : Table) (a b : Row) : Bool := agree t.keyAt a b

/-- A table whose columns have different names, its key among them. -/
structure Lawful (t : Table) : Prop where
  nodup : t.columns.Nodup
  key : ∀ c ∈ t.key, c ∈ t.columns

def Fits (t : Table) (r : Row) : Prop := r.length = t.columns.length

/-- A row that the table can take in: it fits, and there is no double in its key. -/
structure Takes (t : Table) (r : Row) : Prop where
  fits : t.Fits r
  exact : ∀ i ∈ t.keyAt, (cellAt r i).IsExact

def Keyed (t : Table) (rows : List Row) : Prop :=
  rows.Pairwise fun a b => t.sameKey a b = false

/-- Rows as the store holds them: each fits, and no two share a key. -/
structure Sound (t : Table) (rows : List Row) : Prop where
  fits : ∀ r ∈ rows, t.Fits r
  keyed : t.Keyed rows

theorem Sound.nil (t : Table) : t.Sound [] where
  fits := by simp
  keyed := List.Pairwise.nil

/-- The last row of each key. -/
def latest (t : Table) : List Row → List Row
  | [] => []
  | r :: rest => if rest.any (t.sameKey r) then t.latest rest else r :: t.latest rest

theorem mem_of_mem_latest {t : Table} {new : List Row} {r : Row} (h : r ∈ t.latest new) :
    r ∈ new := by
  induction new with
  | nil => exact h
  | cons n rest ih =>
    unfold latest at h
    split at h
    · exact List.mem_cons_of_mem n (ih h)
    · rcases List.mem_cons.mp h with rfl | h
      · exact List.mem_cons_self
      · exact List.mem_cons_of_mem n (ih h)

/-- Puts a row in the place of the row with its key, or at the end if there is none. -/
def put (t : Table) (new : Row) (rows : List Row) : List Row :=
  upsertRow t.keyAt (positions t t.valueColumns) new rows

theorem upsertRows_eq (t : Table) (new rows : List Row) :
    upsertRows ⟨t, .updateAll⟩ new rows = new.foldl (fun rows r => t.put r rows) rows := rfl

variable {t : Table}

/-! ## One row -/

theorem Lawful.indexOf_getElem (h : t.Lawful) {i : Nat} (hi : i < t.columns.length) :
    t.indexOf? t.columns[i] = some i := by
  unfold indexOf?
  rw [List.findIdx?_eq_some_iff_getElem]
  refine ⟨hi, by simp, ?_⟩
  intro j hji
  simp only [beq_iff_eq]
  exact List.pairwise_iff_getElem.mp h.nodup j i (by omega) hi hji

/-- Every position belongs to the key or is refreshed. -/
theorem Lawful.covered (h : t.Lawful) {i : Nat} (hi : i < t.columns.length) :
    i ∈ t.keyAt ∨ i ∈ positions t t.valueColumns := by
  have hget := h.indexOf_getElem hi
  unfold keyAt positions
  rw [List.mem_filterMap, List.mem_filterMap]
  by_cases hk : t.columns[i] ∈ t.key
  · exact Or.inl ⟨_, hk, hget⟩
  · refine Or.inr ⟨_, ?_, hget⟩
    unfold valueColumns isKey
    simp [hk]

theorem cellAt_eq_getElem {r : Row} {i : Nat} (hi : i < r.length) : cellAt r i = r[i] := by
  simp [cellAt, List.getElem?_eq_getElem hi]

theorem Lawful.refresh_eq (h : t.Lawful) {stored new : Row} (hs : t.Fits stored) (hn : t.Fits new)
    (hkey : ∀ i ∈ t.keyAt, cellAt stored i = cellAt new i) :
    refresh (positions t t.valueColumns) stored new = new := by
  unfold Fits at hs hn
  apply List.ext_getElem
  · simp [refresh, hs, hn]
  · intro i hi hi'
    simp only [refresh, List.getElem_mapIdx]
    split
    · exact cellAt_eq_getElem hi'
    · rename_i hv
      have hk : i ∈ t.keyAt := by
        rcases h.covered (hn ▸ hi') with hk | hv'
        · exact hk
        · exact absurd (List.contains_iff_mem.mpr hv') hv
      rw [← cellAt_eq_getElem hi', ← hkey i hk, cellAt_eq_getElem]

/-! ## One upsert -/

section Put
variable {new : Row} {rows : List Row}

theorem Takes.sameKey_iff (hn : t.Takes new) {r : Row} :
    t.sameKey r new = true ↔ ∀ i ∈ t.keyAt, cellAt r i = cellAt new i := agree_iff hn.exact

/-- Two rows that share the key with a new one share it with each other. -/
theorem Takes.sameKey_trans (hn : t.Takes new) {a b : Row} (ha : t.sameKey a new = true)
    (hb : t.sameKey b new = true) : t.sameKey a b = true := by
  have hka := hn.sameKey_iff.mp ha
  have hkb := hn.sameKey_iff.mp hb
  have hexact : ∀ i ∈ t.keyAt, (cellAt b i).IsExact := fun i hi => hkb i hi ▸ hn.exact i hi
  exact (agree_iff hexact).mpr fun i hi => (hka i hi).trans (hkb i hi).symm

theorem Keyed.unique {rows : List Row} (h : t.Keyed rows) {a b : Row} (ha : a ∈ rows)
    (hb : b ∈ rows)
    (hab : t.sameKey a b = true) (hba : t.sameKey b a = true) : a = b := by
  obtain ⟨i, hi, rfl⟩ := List.mem_iff_getElem.mp ha
  obtain ⟨j, hj, rfl⟩ := List.mem_iff_getElem.mp hb
  have hpair := List.pairwise_iff_getElem.mp h
  rcases Nat.lt_trichotomy i j with hlt | rfl | hlt
  · rw [hpair i j hi hj hlt] at hab
    cases hab
  · rfl
  · rw [hpair j i hj hi hlt] at hba
    cases hba

theorem Takes.sameKey_comm (hn : t.Takes new) {r : Row} (h : t.sameKey new r = true) :
    t.sameKey r new = true :=
  hn.sameKey_iff.mpr fun i hi => ((agree_iff_left hn.exact).mp h i hi).symm

theorem put_cons_same (h : t.Lawful) (hn : t.Takes new) {r : Row} (hr : t.Fits r)
    (hk : t.sameKey r new = true) : t.put new (r :: rows) = new :: rows := by
  have hk' : agree t.keyAt r new = true := hk
  simp only [put, upsertRow, hk', if_true]
  rw [h.refresh_eq hr hn.fits (hn.sameKey_iff.mp hk)]

theorem put_cons_other {r : Row} (hk : t.sameKey r new = false) :
    t.put new (r :: rows) = r :: t.put new rows := by
  have hk' : agree t.keyAt r new = false := hk
  simp [put, upsertRow, hk']

theorem mem_put (h : t.Lawful) (hn : t.Takes new) (hf : ∀ r ∈ rows, t.Fits r) {r : Row}
    (hr : r ∈ t.put new rows) : r = new ∨ r ∈ rows := by
  induction rows with
  | nil => exact Or.inl (List.mem_singleton.mp hr)
  | cons s rest ih =>
    have hrest : ∀ x ∈ rest, t.Fits x := fun x hx => hf x (List.mem_cons_of_mem s hx)
    cases hk : t.sameKey s new
    · rw [put_cons_other hk, List.mem_cons] at hr
      rcases hr with rfl | hr
      · exact Or.inr List.mem_cons_self
      · exact (ih hrest hr).imp_right (List.mem_cons_of_mem s)
    · rw [put_cons_same h hn (hf s List.mem_cons_self) hk, List.mem_cons] at hr
      exact hr.imp_right (List.mem_cons_of_mem s)

/-- The table after an upsert: the new row, and the rows of other keys. -/
theorem put_perm (h : t.Lawful) (hn : t.Takes new) (hs : t.Sound rows) :
    (t.put new rows).Perm (new :: rows.filter fun r => !t.sameKey r new) := by
  induction rows with
  | nil => exact List.Perm.refl _
  | cons s rest ih =>
    have hpair := List.pairwise_cons.mp hs.keyed
    have hrest : t.Sound rest := ⟨fun x hx => hs.fits x (List.mem_cons_of_mem s hx), hpair.2⟩
    cases hk : t.sameKey s new
    · rw [put_cons_other hk, List.filter_cons_of_pos (by simp [hk])]
      exact ((ih hrest).cons s).trans (List.Perm.swap new s _)
    · -- the new row takes the place of the first one, and no other has this key
      have hothers : ∀ r ∈ rest, (!t.sameKey r new) = true := by
        intro r hr
        by_contra hrk
        have := hn.sameKey_trans hk (by simpa using hrk)
        rw [hpair.1 r hr] at this
        cases this
      rw [put_cons_same h hn (hs.fits s List.mem_cons_self) hk,
        List.filter_cons_of_neg (by simp [hk]), List.filter_eq_self.mpr hothers]

theorem sound_put (h : t.Lawful) (hn : t.Takes new) (hs : t.Sound rows) :
    t.Sound (t.put new rows) := by
  refine ⟨fun r hr => ?_, ?_⟩
  · rcases mem_put h hn hs.fits hr with rfl | hr
    · exact hn.fits
    · exact hs.fits r hr
  · induction rows with
    | nil => exact List.pairwise_singleton _ _
    | cons s rest ih =>
      have hpair := List.pairwise_cons.mp hs.keyed
      have hrest : t.Sound rest := ⟨fun x hx => hs.fits x (List.mem_cons_of_mem s hx), hpair.2⟩
      cases hk : t.sameKey s new
      · rw [put_cons_other hk]
        refine List.pairwise_cons.mpr ⟨?_, ih hrest⟩
        intro r hr
        rcases mem_put h hn hrest.fits hr with rfl | hr
        · exact hk
        · exact hpair.1 r hr
      · rw [put_cons_same h hn (hs.fits s List.mem_cons_self) hk]
        refine List.pairwise_cons.mpr ⟨?_, hpair.2⟩
        intro r hr
        -- a row that shares the key with the new one shares it with the one that it replaces
        by_contra hnr
        have := hn.sameKey_trans hk (hn.sameKey_comm (by simpa using hnr))
        rw [hpair.1 r hr] at this
        cases this

/-- Rows that are neither the new one nor share its key keep their place. -/
theorem filter_put (h : t.Lawful) (hn : t.Takes new) (hf : ∀ r ∈ rows, t.Fits r) {p : Row → Bool}
    (hp : p new = false) (hrows : ∀ r ∈ rows, t.sameKey r new = true → p r = false) :
    (t.put new rows).filter p = rows.filter p := by
  induction rows with
  | nil => simp [put, upsertRow, hp]
  | cons s rest ih =>
    have hrest := ih (fun x hx => hf x (List.mem_cons_of_mem s hx))
      fun x hx => hrows x (List.mem_cons_of_mem s hx)
    cases hk : t.sameKey s new
    · rw [put_cons_other hk, List.filter_cons, List.filter_cons, hrest]
    · rw [put_cons_same h hn (hf s List.mem_cons_self) hk, List.filter_cons_of_neg (by simp [hp]),
        List.filter_cons_of_neg (by simp [hrows s List.mem_cons_self hk])]

end Put

/-! ## A batch of upserts -/

section Batch
variable {new rows : List Row}

theorem sound_upsertRows (h : t.Lawful) (hn : ∀ r ∈ new, t.Takes r) (hs : t.Sound rows) :
    t.Sound (upsertRows ⟨t, .updateAll⟩ new rows) := by
  rw [upsertRows_eq]
  induction new generalizing rows with
  | nil => exact hs
  | cons n rest ih =>
    exact ih (fun r hr => hn r (List.mem_cons_of_mem n hr))
      (sound_put h (hn n List.mem_cons_self) hs)

theorem mem_upsertRows (h : t.Lawful) (hn : ∀ r ∈ new, t.Takes r) (hf : ∀ r ∈ rows, t.Fits r)
    {r : Row} (hr : r ∈ upsertRows ⟨t, .updateAll⟩ new rows) : r ∈ new ∨ r ∈ rows := by
  rw [upsertRows_eq] at hr
  induction new generalizing rows with
  | nil => exact Or.inr hr
  | cons n rest ih =>
    have htakes := hn n List.mem_cons_self
    have hput : ∀ x ∈ t.put n rows, t.Fits x := by
      intro x hx
      rcases mem_put h htakes hf hx with rfl | hx
      · exact htakes.fits
      · exact hf x hx
    rcases ih (fun x hx => hn x (List.mem_cons_of_mem n hx)) hput hr with hr | hr
    · exact Or.inl (List.mem_cons_of_mem n hr)
    · rcases mem_put h htakes hf hr with rfl | hr
      · exact Or.inl List.mem_cons_self
      · exact Or.inr hr

/-- The table after a batch: the rows of other keys, and the last row of each key in the batch. -/
theorem upsertRows_perm (h : t.Lawful) (hn : ∀ r ∈ new, t.Takes r) (hs : t.Sound rows) :
    (upsertRows ⟨t, .updateAll⟩ new rows).Perm
      (rows.filter (fun r => !new.any (t.sameKey r)) ++ t.latest new) := by
  rw [upsertRows_eq]
  induction new generalizing rows with
  | nil => simp [latest]
  | cons n rest ih =>
    -- the first row of the batch is put, and goes again if the rest has its key
    have htakes := hn n List.mem_cons_self
    have hrest := ih (fun r hr => hn r (List.mem_cons_of_mem n hr)) (sound_put h htakes hs)
    refine hrest.trans ?_
    have hput := (put_perm h htakes hs).filter fun r => !rest.any (t.sameKey r)
    refine (hput.append_right _).trans ?_
    have hfilter : (rows.filter fun r => !t.sameKey r n).filter (fun r => !rest.any (t.sameKey r)) =
        rows.filter fun r => !(n :: rest).any (t.sameKey r) := by
      rw [List.filter_filter]
      simp [Bool.and_comm]
    by_cases hlater : rest.any (t.sameKey n) = true
    · rw [List.filter_cons_of_neg (by simp [hlater]), hfilter]
      simp only [latest, hlater, if_true, List.Perm.refl]
    · rw [List.filter_cons_of_pos (by simpa using hlater), hfilter]
      simp only [latest, hlater, Bool.false_eq_true, if_false, List.cons_append]
      exact List.perm_middle.symm

/-- Rows that are not in the batch and share no key with it keep their place. -/
theorem filter_upsertRows (h : t.Lawful) (hn : ∀ r ∈ new, t.Takes r) (hf : ∀ r ∈ rows, t.Fits r)
    {p : Row → Bool} (hp : ∀ n ∈ new, p n = false)
    (hrows : ∀ r ∈ rows, ∀ n ∈ new, t.sameKey r n = true → p r = false) :
    (upsertRows ⟨t, .updateAll⟩ new rows).filter p = rows.filter p := by
  rw [upsertRows_eq]
  induction new generalizing rows with
  | nil => rfl
  | cons n rest ih =>
    have htakes := hn n List.mem_cons_self
    have hmem : ∀ r ∈ t.put n rows, r = n ∨ r ∈ rows := fun r => mem_put h htakes hf
    rw [List.foldl_cons, ih (fun r hr => hn r (List.mem_cons_of_mem n hr)) ?_
      (fun r hr => hp r (List.mem_cons_of_mem n hr)) ?_]
    · exact filter_put h htakes hf (hp n List.mem_cons_self)
        fun r hr hk => hrows r hr n List.mem_cons_self hk
    · intro r hr
      rcases hmem r hr with rfl | hr
      · exact htakes.fits
      · exact hf r hr
    · intro r hr m hm hk
      rcases hmem r hr with rfl | hr
      · exact hp r List.mem_cons_self
      · exact hrows r hr m (List.mem_cons_of_mem n hm) hk

end Batch

/-! ## The values of a key column -/

section Cells
variable {new rows : List Row} {i : Nat} {c : Cell}

theorem cellAt_refresh {updated : List Nat} {stored new : Row}
    (h : cellAt stored i = cellAt new i) :
    cellAt (refresh updated stored new) i = cellAt new i := by
  unfold cellAt at h ⊢
  unfold refresh
  rw [List.getElem?_mapIdx]
  cases hs : stored[i]? with
  | none => simpa [hs] using h
  | some x =>
    have hx : x = cellAt new i := by simpa [hs, cellAt] using h
    by_cases hu : updated.contains i = true
    · simp only [Option.map_some, if_pos hu, Option.getD_some]
      rfl
    · simp only [Option.map_some, if_neg hu, Option.getD_some]
      exact hx

theorem cells_upsertRow {key updated : List Nat} {new : Row}
    (hn : ∀ j ∈ key, (cellAt new j).IsExact) (hi : i ∈ key) :
    (∃ r ∈ upsertRow key updated new rows, cellAt r i = c) ↔
      (∃ r ∈ rows, cellAt r i = c) ∨ cellAt new i = c := by
  induction rows with
  | nil => simp [upsertRow]
  | cons s rest ih =>
    unfold upsertRow
    by_cases hk : agree key s new = true
    · have hs : cellAt s i = cellAt new i := (agree_iff hn).mp hk i hi
      simp only [if_pos hk, List.exists_mem_cons_iff, cellAt_refresh hs, hs]
      exact ⟨Or.inl, fun h => h.elim id Or.inl⟩
    · simp only [if_neg hk, List.exists_mem_cons_iff, ih, or_assoc]

/-- Whatever a batch refreshes, a key column holds afterwards what it held before and what the batch
brings. -/
theorem cells_upsertRows (u : Upsert) (hn : ∀ r ∈ new, u.table.Takes r) (hi : i ∈ u.table.keyAt) :
    (∃ r ∈ upsertRows u new rows, cellAt r i = c) ↔
      (∃ r ∈ rows, cellAt r i = c) ∨ ∃ r ∈ new, cellAt r i = c := by
  unfold upsertRows
  induction new generalizing rows with
  | nil => simp
  | cons n rest ih =>
    have hfirst : (∃ r ∈ upsertRow u.table.keyAt (positions u.table u.updated) n rows,
        cellAt r i = c) ↔ (∃ r ∈ rows, cellAt r i = c) ∨ cellAt n i = c :=
      cells_upsertRow (hn n List.mem_cons_self).exact hi
    rw [List.foldl_cons, ih fun r hr => hn r (List.mem_cons_of_mem n hr),
      List.exists_mem_cons_iff, ← or_assoc]
    exact or_congr_left hfirst

theorem cells_latest (h : t.Lawful) (hn : ∀ r ∈ new, t.Takes r) (hi : i ∈ t.keyAt) :
    (∃ r ∈ t.latest new, cellAt r i = c) ↔ ∃ r ∈ new, cellAt r i = c := by
  have hperm : (upsertRows ⟨t, .updateAll⟩ new []).Perm (t.latest new) := by
    simpa using upsertRows_perm h hn (Sound.nil t)
  have hcells : (∃ r ∈ upsertRows ⟨t, .updateAll⟩ new [], cellAt r i = c) ↔
      (∃ r ∈ ([] : List Row), cellAt r i = c) ∨ ∃ r ∈ new, cellAt r i = c :=
    cells_upsertRows ⟨t, .updateAll⟩ hn hi
  simp only [hperm.mem_iff] at hcells
  simpa using hcells

end Cells

/-! ## Upserts that keep what is there -/

section Keep
variable {new : Row} {rows : List Row}

theorem upsertRow_keep (key : List Nat) :
    upsertRow key [] new rows = if rows.any (agree key · new) then rows else rows ++ [new] := by
  induction rows with
  | nil => rfl
  | cons s rest ih =>
    unfold upsertRow
    cases hk : agree key s new
    · simp only [Bool.false_eq_true, if_false, List.any_cons, hk, Bool.false_or, ih]
      split <;> rfl
    · simp [hk, refresh_nil]

theorem sound_keep (hn : t.Takes new) (hs : t.Sound rows) :
    t.Sound (upsertRow t.keyAt [] new rows) := by
  rw [upsertRow_keep]
  split
  · exact hs
  · rename_i hnone
    refine ⟨fun r hr => ?_, List.pairwise_append.mpr ⟨hs.keyed, List.pairwise_singleton _ _, ?_⟩⟩
    · rcases List.mem_append.mp hr with hr | hr
      · exact hs.fits r hr
      · obtain rfl := List.mem_singleton.mp hr
        exact hn.fits
    · intro r hr n hnew
      obtain rfl := List.mem_singleton.mp hnew
      by_contra hk
      exact hnone (List.any_eq_true.mpr ⟨r, hr, (Bool.not_eq_false _).mp hk⟩)

theorem sound_keepRows {new : List Row} (hn : ∀ r ∈ new, t.Takes r) (hs : t.Sound rows) :
    t.Sound (upsertRows ⟨t, .keep⟩ new rows) := by
  have heq : upsertRows ⟨t, .keep⟩ new rows =
      new.foldl (fun rows r => upsertRow t.keyAt [] r rows) rows := rfl
  rw [heq]
  induction new generalizing rows with
  | nil => exact hs
  | cons n rest ih =>
    exact ih (fun r hr => hn r (List.mem_cons_of_mem n hr))
      (sound_keep (hn n List.mem_cons_self) hs)
      rfl

theorem mem_keepRows {new : List Row} {r : Row}
    (hr : r ∈ upsertRows ⟨t, .keep⟩ new rows) : r ∈ new ∨ r ∈ rows := by
  have heq : upsertRows ⟨t, .keep⟩ new rows =
      new.foldl (fun rows r => upsertRow t.keyAt [] r rows) rows := rfl
  rw [heq] at hr
  induction new generalizing rows with
  | nil => exact .inr hr
  | cons n rest ih =>
    rcases ih hr rfl with hr | hr
    · exact .inl (List.mem_cons_of_mem n hr)
    · simp only [upsertRow_keep] at hr
      split at hr
      · exact .inr hr
      · rcases List.mem_append.mp hr with hr | hr
        · exact .inr hr
        · exact .inl (List.mem_cons.mpr (.inl (List.mem_singleton.mp hr)))

end Keep

end Table

/-! ## Rows that fit -/

section Shape
variable {t : Table} {rows : List Row}

theorem checkShape_ok_iff : checkShape t rows = .ok () ↔ ∀ r ∈ rows, t.Fits r := by
  have hnone : rows.find? (fun r => r.length != t.columns.length) = none ↔ ∀ r ∈ rows, t.Fits r := by
    simp [List.find?_eq_none, Table.Fits]
  rw [← hnone]
  unfold checkShape
  split <;> simp_all

theorem checkShape_error {e : StoreError} (h : checkShape t rows = .error e) :
    ∃ r ∈ rows, ¬ t.Fits r ∧ e = .shape t.name t.columns.length r.length := by
  unfold checkShape at h
  split at h
  · rename_i r hfound
    cases h
    exact ⟨r, List.mem_of_find?_eq_some hfound, by simpa [Table.Fits] using List.find?_some hfound,
      rfl⟩
  · cases h

end Shape

end KubeLedger
