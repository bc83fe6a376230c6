import KubeLedger.Proofs.Tables

/- What a batch makes of a table. The rows of a batch are upserted one after another, and what comes of
   them all can be said at once (`upsertRows_eq_merge`): the rows that were there keep their places, the
   first row of each new key follows in the order of the batch (`fresh`), and each of all these is
   refreshed once, from the last row of the batch that has its key (`settle`). It does not matter which
   columns are refreshed: a row is refreshed from one of its own key, so no key is changed by it, even
   where columns of the key are among them.

   By keys this reads as it would for a map (`Merged`). -/
namespace KubeLedger

open Database

namespace Table

variable {t : Table} {updated : List Nat} {new : Row} {rows : List Row}

/-! ## Keys as values -/

def keyOf (t : Table) (r : Row) : List Cell := t.keyAt.map (cellAt r)

theorem keyOf_eq_iff {a b : Row} :
    t.keyOf a = t.keyOf b ↔ ∀ i ∈ t.keyAt, cellAt a i = cellAt b i := List.map_inj_left

theorem Takes.sameKey_iff_keyOf (hn : t.Takes new) {r : Row} :
    t.sameKey r new = true ↔ t.keyOf r = t.keyOf new := hn.sameKey_iff.trans keyOf_eq_iff.symm

theorem sameKey_congr {a b : Row} (h : t.keyOf a = t.keyOf b) (r : Row) :
    t.sameKey a r = t.sameKey b r ∧ t.sameKey r a = t.sameKey r b := by
  rw [keyOf_eq_iff] at h
  exact ⟨agree_congr h fun _ _ => rfl, agree_congr (fun _ _ => rfl) h⟩

/-- Rows that a table can hold: it takes in each of them, and no two share a key. -/
structure Held (t : Table) (rows : List Row) : Prop where
  takes : ∀ r ∈ rows, t.Takes r
  keyed : t.Keyed rows

theorem Held.nodup_keys (h : t.Held rows) : (rows.map t.keyOf).Nodup := by
  refine List.pairwise_map.mpr (h.keyed.imp_of_mem fun {a b} _ hb hab heq => ?_)
  rw [(h.takes b hb).sameKey_iff_keyOf.mpr heq] at hab
  cases hab

/-- The first row that has the key of another. -/
def first? (t : Table) (rows : List Row) (n : Row) : Option Row := rows.find? (t.sameKey · n)

/-- The last row that has the key of another. -/
def last? (t : Table) (rows : List Row) (n : Row) : Option Row := t.first? rows.reverse n

/-- The first rows of the keys that are not stored yet, in their order. -/
def fresh (t : Table) (stored : List Row) : List Row → List Row
  | [] => []
  | n :: rest =>
    if (t.first? stored n).isSome then t.fresh stored rest else n :: t.fresh (stored ++ [n]) rest

/-! ## Search by key -/

theorem first?_cons (s : Row) (rest : List Row) (n : Row) :
    t.first? (s :: rest) n = if t.sameKey s n then some s else t.first? rest n := by
  unfold first?
  rw [List.find?_cons]
  cases t.sameKey s n <;> rfl

theorem first?_append (a b : List Row) (n : Row) :
    t.first? (a ++ b) n = (t.first? a n).or (t.first? b n) := List.find?_append

theorem last?_cons (s : Row) (rest : List Row) (n : Row) :
    t.last? (s :: rest) n = (t.last? rest n).or (if t.sameKey s n then some s else none) := by
  unfold last?
  rw [List.reverse_cons, first?_append, first?_cons]
  rfl

/-- What is found depends on the key alone. -/
theorem first?_congr {a b : Row} (h : t.keyOf a = t.keyOf b) (rows : List Row) :
    t.first? rows a = t.first? rows b := by
  unfold first?
  congr 1
  funext r
  exact (sameKey_congr h r).2

theorem mem_first? {n r : Row} (h : t.first? rows n = some r) :
    r ∈ rows ∧ t.sameKey r n = true :=
  ⟨List.mem_of_find?_eq_some h, by simpa using List.find?_some h⟩

theorem mem_last? {n r : Row} (h : t.last? rows n = some r) :
    r ∈ rows ∧ t.sameKey r n = true :=
  ⟨List.mem_reverse.mp (mem_first? h).1, (mem_first? h).2⟩

theorem first?_eq_none_iff {n : Row} :
    t.first? rows n = none ↔ ∀ r ∈ rows, t.sameKey r n = false := by
  simp [first?]

theorem isSome_first? {n r : Row} (hr : r ∈ rows) (h : t.sameKey r n = true) :
    (t.first? rows n).isSome = true := by
  unfold first?
  rw [List.find?_isSome]
  exact ⟨r, hr, h⟩

theorem isSome_last? {n r : Row} (hr : r ∈ rows) (h : t.sameKey r n = true) :
    (t.last? rows n).isSome = true := isSome_first? (List.mem_reverse.mpr hr) h

/-- In a table the only row of a key is found. -/
theorem Keyed.first?_eq (h : t.Keyed rows) {n r : Row} (hn : t.Takes n) (hr : r ∈ rows)
    (hsame : t.sameKey r n = true) : t.first? rows n = some r := by
  obtain ⟨s, hfirst⟩ := Option.isSome_iff_exists.mp (isSome_first? hr hsame)
  obtain ⟨hs, hsn⟩ := mem_first? hfirst
  rw [hfirst, h.unique hr hs (hn.sameKey_trans hsame hsn) (hn.sameKey_trans hsn hsame)]

/-! ## One row -/

theorem cellAt_refresh_eq (updated : List Nat) {stored : Row} (new : Row) {i : Nat}
    (hi : i < stored.length) : cellAt (refresh updated stored new) i =
      if i ∈ updated then cellAt new i else cellAt stored i := by
  have hlength : i < (refresh updated stored new).length := by simpa [refresh] using hi
  rw [cellAt_eq_getElem hlength, cellAt_eq_getElem hi]
  simp [refresh]

/-- Only the last refreshment shows. -/
theorem refresh_refresh (updated : List Nat) (stored a b : Row) :
    refresh updated (refresh updated stored a) b = refresh updated stored b := by
  refine List.ext_getElem (by simp [refresh]) fun i hi hi' => ?_
  simp only [refresh, List.getElem_mapIdx]
  split <;> rfl

theorem refresh_self (updated : List Nat) (r : Row) : refresh updated r r = r := by
  refine List.ext_getElem (by simp [refresh]) fun i hi hi' => ?_
  simp only [refresh, List.getElem_mapIdx]
  split
  · exact cellAt_eq_getElem hi'
  · rfl

def renew (t : Table) (updated : List Nat) (new stored : Row) : Row :=
  if t.sameKey stored new then refresh updated stored new else stored

theorem renew_other {stored : Row} (h : t.sameKey stored new = false) :
    t.renew updated new stored = stored := if_neg (Bool.eq_false_iff.mp h)

theorem keyOf_refresh (hn : t.Takes new) {stored : Row} (h : t.sameKey stored new = true) :
    t.keyOf (refresh updated stored new) = t.keyOf stored := by
  have hcells := hn.sameKey_iff.mp h
  exact keyOf_eq_iff.mpr fun i hi => (cellAt_refresh (hcells i hi)).trans (hcells i hi).symm

theorem keyOf_renew (hn : t.Takes new) (stored : Row) :
    t.keyOf (t.renew updated new stored) = t.keyOf stored := by
  unfold renew
  split
  · exact keyOf_refresh hn ‹_›
  · rfl

theorem upsertRow_eq (hn : t.Takes new) (h : t.Keyed rows) :
    upsertRow t.keyAt updated new rows =
      if (t.first? rows new).isSome then rows.map (t.renew updated new) else rows ++ [new] := by
  induction rows with
  | nil => rfl
  | cons s rest ih =>
    obtain ⟨hfirst, hrest⟩ := List.pairwise_cons.mp h
    unfold upsertRow
    cases hk : t.sameKey s new with
    | true =>
      have hagree : agree t.keyAt s new = true := hk
      -- no other row has this key
      have hothers : ∀ r ∈ rest, t.renew updated new r = r := by
        intro r hr
        refine if_neg fun hsame => ?_
        have hboth := hn.sameKey_trans hk hsame
        rw [hfirst r hr] at hboth
        cases hboth
      rw [if_pos hagree, first?_cons, if_pos hk, if_pos Option.isSome_some, List.map_cons,
        List.map_congr_left hothers, List.map_id', renew, if_pos hk]
    | false =>
      have hagree : ¬ agree t.keyAt s new = true := Bool.eq_false_iff.mp hk
      have hfind : t.first? (s :: rest) new = t.first? rest new := by
        rw [first?_cons, hk]
        rfl
      rw [if_neg hagree, ih hrest, hfind, List.map_cons, renew_other hk]
      split <;> rfl

theorem keyed_map {f : Row → Row} (hf : ∀ r ∈ rows, t.keyOf (f r) = t.keyOf r) (h : t.Keyed rows) :
    t.Keyed (rows.map f) := by
  refine List.pairwise_map.mpr (h.imp_of_mem fun {a b} ha hb hab => ?_)
  rw [(sameKey_congr (hf a ha) _).1, (sameKey_congr (hf b hb) _).2, hab]

theorem keyed_upsertRow (hn : t.Takes new) (h : t.Keyed rows) :
    t.Keyed (upsertRow t.keyAt updated new rows) := by
  rw [upsertRow_eq hn h]
  split
  · exact keyed_map (fun r _ => keyOf_renew hn r) h
  · rename_i hnone
    refine List.pairwise_append.mpr ⟨h, List.pairwise_singleton _ _, fun r hr n hmem => ?_⟩
    obtain rfl := List.mem_singleton.mp hmem
    by_contra hsame
    exact hnone (isSome_first? hr (by simpa using hsame))

theorem takes_refresh (hn : t.Takes new) {stored : Row} (hs : t.Takes stored)
    (h : t.sameKey stored new = true) : t.Takes (refresh updated stored new) := by
  refine ⟨?_, fun i hi => ?_⟩
  · simpa [Fits, refresh] using hs.fits
  · rw [cellAt_refresh (hn.sameKey_iff.mp h i hi)]
    exact hn.exact i hi

theorem held_upsertRow (hn : t.Takes new) (h : t.Held rows) :
    t.Held (upsertRow t.keyAt updated new rows) := by
  refine ⟨?_, keyed_upsertRow hn h.keyed⟩
  rw [upsertRow_eq hn h.keyed]
  intro r hr
  split at hr
  · obtain ⟨s, hs, rfl⟩ := List.mem_map.mp hr
    unfold renew
    split
    · exact takes_refresh hn (h.takes s hs) ‹_›
    · exact h.takes s hs
  · rcases List.mem_append.mp hr with hr | hr
    · exact h.takes r hr
    · rwa [List.mem_singleton.mp hr]

/-! ## A batch -/

def settle (t : Table) (updated : List Nat) (batch : List Row) (r : Row) : Row :=
  ((t.last? batch r).map (refresh updated r)).getD r

section Batch
variable {batch stored : List Row} {n : Row}

theorem fresh_cons (n : Row) (rest : List Row) :
    t.fresh stored (n :: rest) = if (t.first? stored n).isSome then t.fresh stored rest
      else n :: t.fresh (stored ++ [n]) rest := rfl

theorem fresh_congr {stored' : List Row}
    (h : ∀ n, (t.first? stored n).isSome = (t.first? stored' n).isSome) :
    t.fresh stored batch = t.fresh stored' batch := by
  induction batch generalizing stored stored' with
  | nil => rfl
  | cons n rest ih =>
    have hmore : ∀ m, (t.first? (stored ++ [n]) m).isSome = (t.first? (stored' ++ [n]) m).isSome := by
      intro m
      rw [first?_append, first?_append, Option.isSome_or, Option.isSome_or, h]
    simp only [fresh, h, ih h, ih hmore]

/-- A new row comes from the batch, where it is the first of its key, and no stored row has that key. -/
theorem mem_fresh (hbatch : ∀ n ∈ batch, t.Takes n) {f : Row} (h : f ∈ t.fresh stored batch) :
    t.first? batch f = some f ∧ t.first? stored f = none := by
  induction batch generalizing stored with
  | nil => cases h
  | cons n rest ih =>
    obtain ⟨hn, hrest⟩ := List.forall_mem_cons.mp hbatch
    have hself : t.sameKey n n = true := hn.sameKey_iff_keyOf.mpr rfl
    unfold fresh at h
    split at h
    · rename_i hstored
      obtain ⟨hfirst, hnone⟩ := ih hrest h
      -- the stored rows have the key of the first row, and not that of the new one
      have hother : ¬ t.sameKey n f = true := by
        intro hsame
        have hkey := (hrest f (mem_first? hfirst).1).sameKey_iff_keyOf.mp hsame
        rw [first?_congr hkey, hnone] at hstored
        cases hstored
      rw [first?_cons, if_neg hother]
      exact ⟨hfirst, hnone⟩
    · rename_i hstored
      rcases List.mem_cons.mp h with rfl | h
      · rw [first?_cons, if_pos hself]
        exact ⟨rfl, by simpa using hstored⟩
      · obtain ⟨hfirst, hnone⟩ := ih hrest h
        rw [first?_append, Option.or_eq_none_iff, first?_cons] at hnone
        have hother : ¬ t.sameKey n f = true := by
          intro hsame
          rw [if_pos hsame] at hnone
          cases hnone.2
        rw [first?_cons, if_neg hother]
        exact ⟨hfirst, hnone.1⟩

theorem exists_base (hbatch : ∀ n ∈ batch, t.Takes n) {n : Row} (hn : n ∈ batch) :
    ∃ r ∈ stored ++ t.fresh stored batch, t.sameKey r n = true := by
  induction batch generalizing stored with
  | nil => cases hn
  | cons m rest ih =>
    obtain ⟨hm, hrest⟩ := List.forall_mem_cons.mp hbatch
    have hself : t.sameKey m m = true := hm.sameKey_iff_keyOf.mpr rfl
    unfold fresh
    split
    · rename_i hstored
      rcases List.mem_cons.mp hn with rfl | hn
      · obtain ⟨r, hfirst⟩ := Option.isSome_iff_exists.mp hstored
        obtain ⟨hr, hsame⟩ := mem_first? hfirst
        exact ⟨r, List.mem_append_left _ hr, hsame⟩
      · exact ih hrest hn
    · rw [List.append_cons]
      rcases List.mem_cons.mp hn with rfl | hn
      · exact ⟨n, by simp, hself⟩
      · exact ih hrest hn

/-- A row is settled by the first row of a batch, and then by the others. -/
theorem settle_cons {n : Row} (hn : t.Takes n) {r : Row} (hr : t.Takes r) (rest : List Row) :
    t.settle updated (n :: rest) r = t.settle updated rest (t.renew updated n r) := by
  have hcomm : t.sameKey n r = t.sameKey r n := by
    rw [Bool.eq_iff_iff, hr.sameKey_iff_keyOf, hn.sameKey_iff_keyOf, eq_comm]
  have hlast : t.last? rest (t.renew updated n r) = t.last? rest r :=
    first?_congr (keyOf_renew hn r) _
  unfold settle
  rw [hlast, last?_cons, hcomm]
  unfold renew
  cases t.last? rest r with
  | none => cases t.sameKey r n <;> rfl
  | some m =>
    -- what the first row has refreshed, the last one refreshes again
    cases t.sameKey r n
    · rfl
    · exact (refresh_refresh updated r n m).symm

/-- The first row of a batch renews the stored row of its key, or is itself the first new row. -/
theorem upsertRow_fresh (hbatch : ∀ m ∈ n :: batch, t.Takes m) (h : t.Keyed stored) :
    upsertRow t.keyAt updated n stored ++ t.fresh (upsertRow t.keyAt updated n stored) batch =
      (stored ++ t.fresh stored (n :: batch)).map (t.renew updated n) := by
  obtain ⟨hn, hrest⟩ := List.forall_mem_cons.mp hbatch
  rw [upsertRow_eq hn h, fresh_cons]
  split
  · rename_i hfound
    have hfresh : t.fresh (stored.map (t.renew updated n)) batch = t.fresh stored batch := by
      refine fresh_congr fun m => ?_
      unfold first?
      rw [Bool.eq_iff_iff, List.find?_isSome, List.find?_isSome]
      simp [(sameKey_congr (keyOf_renew hn _) m).1]
    have hothers : ∀ f ∈ t.fresh stored batch, t.renew updated n f = f := by
      intro f hf
      refine renew_other (Bool.eq_false_iff.mpr fun hsame => ?_)
      have hkey := hn.sameKey_iff_keyOf.mp hsame
      rw [← first?_congr hkey, (mem_fresh hrest hf).2] at hfound
      cases hfound
    rw [hfresh, List.map_append, List.map_congr_left hothers, List.map_id']
  · rename_i hnone
    have hstays : ∀ r ∈ stored, t.renew updated n r = r := fun r hr =>
      renew_other (first?_eq_none_iff.mp (by simpa using hnone) r hr)
    have hself : t.renew updated n n = n := by
      unfold renew
      rw [refresh_self, ite_self]
    have hothers : ∀ f ∈ t.fresh (stored ++ [n]) batch, t.renew updated n f = f := by
      intro f hf
      obtain ⟨hfirst, hnew⟩ := mem_fresh hrest hf
      refine renew_other (Bool.eq_false_iff.mpr fun hsame => ?_)
      have hkey := hn.sameKey_iff_keyOf.mp hsame
      have hsome : (t.first? (stored ++ [n]) n).isSome = true :=
        isSome_first? (by simp) (hn.sameKey_iff_keyOf.mpr rfl)
      rw [← first?_congr hkey, hnew] at hsome
      cases hsome
    rw [List.map_append, List.map_congr_left hstays, List.map_id', List.map_cons, hself,
      List.map_congr_left hothers, List.map_id', List.append_assoc, List.singleton_append]

/-- A batch as a whole: the stored rows and the new ones, each as the batch leaves it. -/
theorem upsertRows_eq_merge {u : Upsert} (hbatch : ∀ n ∈ batch, u.table.Takes n)
    (h : u.table.Held stored) :
    upsertRows u batch stored =
      (stored ++ u.table.fresh stored batch).map
        (u.table.settle (positions u.table u.updated) batch) := by
  induction batch generalizing stored with
  | nil =>
    have hid : u.table.settle (positions u.table u.updated) [] = id := rfl
    rw [hid, List.map_id, fresh, List.append_nil]
    rfl
  | cons n rest ih =>
    obtain ⟨hn, hrest⟩ := List.forall_mem_cons.mp hbatch
    have hnew : ∀ f, f ∈ u.table.fresh stored (n :: rest) → u.table.Takes f :=
      fun f hf => hbatch f (mem_first? (mem_fresh hbatch hf).1).1
    -- the first row settles stored and new rows alike
    have hsettle : ∀ r ∈ stored ++ u.table.fresh stored (n :: rest),
        u.table.settle (positions u.table u.updated) (n :: rest) r =
          u.table.settle (positions u.table u.updated) rest
            (u.table.renew (positions u.table u.updated) n r) := by
      intro r hr
      refine settle_cons hn ?_ rest
      exact (List.mem_append.mp hr).elim (h.takes r) (hnew r)
    have hstep : upsertRows u (n :: rest) stored =
        upsertRows u rest
          (upsertRow u.table.keyAt (positions u.table u.updated) n stored) := rfl
    rw [hstep, ih hrest (held_upsertRow hn h), List.map_congr_left hsettle,
      upsertRow_fresh hbatch h.keyed, List.map_map]
    rfl

/-! ## A batch by keys -/

theorem keyOf_settle (hbatch : ∀ n ∈ batch, t.Takes n) {r : Row} (hr : t.Takes r) :
    t.keyOf (t.settle updated batch r) = t.keyOf r := by
  unfold settle
  cases hlast : t.last? batch r with
  | none => rfl
  | some last =>
    obtain ⟨hmem, hsame⟩ := mem_last? hlast
    have hkey := hr.sameKey_iff_keyOf.mp hsame
    exact keyOf_refresh (hbatch last hmem) ((hbatch last hmem).sameKey_iff_keyOf.mpr hkey.symm)

theorem settle_eq {r n last : Row} (hkey : t.keyOf r = t.keyOf n) (h : t.last? batch n = some last) :
    t.settle updated batch r = refresh updated r last := by
  have hlast : t.last? batch r = some last := by
    rw [← h]
    exact first?_congr hkey _
  rw [settle, hlast]
  rfl

theorem settle_other {r : Row} (h : t.first? batch r = none) : t.settle updated batch r = r := by
  have hlast : t.last? batch r = none := by
    refine first?_eq_none_iff.mpr fun m hm => ?_
    exact first?_eq_none_iff.mp h m (List.mem_reverse.mp hm)
  rw [settle, hlast]
  rfl

theorem settle_keep (batch : List Row) (r : Row) : t.settle [] batch r = r := by
  unfold settle
  cases t.last? batch r with
  | none => rfl
  | some last => exact refresh_nil r last

/-- The row that is settled under a key is the one that was stored or, if there was none, the first of
the batch. -/
theorem first?_base (hbatch : ∀ n ∈ batch, t.Takes n) (h : t.Keyed stored) {n r : Row}
    (hn : t.Takes n) (hr : r ∈ stored ++ t.fresh stored batch) (hsame : t.sameKey r n = true) :
    (t.first? stored n).or (t.first? batch n) = some r := by
  rcases List.mem_append.mp hr with hstored | hfresh
  · rw [h.first?_eq hn hstored hsame]
    rfl
  · have hkey := hn.sameKey_iff_keyOf.mp hsame
    obtain ⟨hfirst, hnone⟩ := mem_fresh hbatch hfresh
    rw [← first?_congr hkey, ← first?_congr hkey, hnone, hfirst]
    rfl

/-- What is outside of a batch it leaves alone. -/
theorem filter_settle (hbatch : ∀ n ∈ batch, t.Takes n) (hstored : ∀ r ∈ stored, t.Takes r) :
    ((stored ++ t.fresh stored batch).map (t.settle updated batch)).filter
        (fun r => (t.first? batch r).isNone) =
      stored.filter fun r => (t.first? batch r).isNone := by
  have hfresh : ∀ f ∈ t.fresh stored batch, t.first? batch f = some f :=
    fun f hf => (mem_fresh hbatch hf).1
  have hnone : (t.fresh stored batch).filter (fun r => (t.first? batch r).isNone) = [] :=
    List.filter_eq_nil_iff.mpr fun f hf => by simp [hfresh f hf]
  have hsame : ∀ r ∈ stored ++ t.fresh stored batch,
      ((fun r => (t.first? batch r).isNone) ∘ t.settle updated batch) r =
        (t.first? batch r).isNone := by
    intro r hr
    have htakes : t.Takes r := (List.mem_append.mp hr).elim (hstored r)
      fun hf => hbatch r (mem_first? (hfresh r hf)).1
    exact congrArg Option.isNone (first?_congr (keyOf_settle hbatch htakes) batch)
  rw [List.filter_map, List.filter_congr hsame, List.filter_append, hnone, List.append_nil]
  refine (List.map_congr_left fun r hr => ?_).trans (List.map_id _)
  exact settle_other (by simpa using (List.mem_filter.mp hr).2)

/-- What a batch does to the rows of a table, seen as a map. -/
structure Merged (u : Upsert) (batch before after : List Row) : Prop where
  /-- All keys keep their places, and new ones follow in the order in which they first appear. -/
  keys : after.map u.table.keyOf = (before ++ u.table.fresh before batch).map u.table.keyOf
  /-- Under a key of the batch, the columns that are refreshed hold what the last row of the key brings.
  The others hold what was stored or, under a new key, what the first row brings. -/
  values : ∀ n ∈ batch, ∃ r ∈ after, ∃ last base,
    u.table.keyOf r = u.table.keyOf n ∧ u.table.last? batch n = some last ∧
    (u.table.first? before n).or (u.table.first? batch n) = some base ∧
    ∀ i < u.table.columns.length, cellAt r i =
      if i ∈ positions u.table u.updated then cellAt last i else cellAt base i
  /-- Rows whose keys are not in the batch are the same rows, in the same order. -/
  others : after.filter (fun r => (u.table.first? batch r).isNone) =
    before.filter fun r => (u.table.first? batch r).isNone
  /-- Where stored rows are to be kept, all are. -/
  kept : u.onConflict = .keep → before <+: after

theorem merged {u : Upsert} (hbatch : ∀ n ∈ batch, u.table.Takes n)
    (h : u.table.Held stored) : Merged u batch stored (upsertRows u batch stored) := by
  have htakes : ∀ r ∈ stored ++ u.table.fresh stored batch, u.table.Takes r := by
    intro r hr
    exact (List.mem_append.mp hr).elim (h.takes r)
      fun hf => hbatch r (mem_first? (mem_fresh hbatch hf).1).1
  rw [upsertRows_eq_merge hbatch h]
  refine ⟨?_, fun n hn => ?_, filter_settle hbatch h.takes, fun hkeep => ?_⟩
  · rw [List.map_map]
    exact List.map_congr_left fun r hr => keyOf_settle hbatch (htakes r hr)
  · obtain ⟨base, hbase, hsame⟩ : ∃ r ∈ stored ++ u.table.fresh stored batch,
        u.table.sameKey r n = true := exists_base hbatch hn
    have hkey := (hbatch n hn).sameKey_iff_keyOf.mp hsame
    obtain ⟨last, hlast⟩ := Option.isSome_iff_exists.mp
      (isSome_last? hn ((hbatch n hn).sameKey_iff_keyOf.mpr rfl))
    refine ⟨_, List.mem_map_of_mem hbase, last, base,
      (keyOf_settle hbatch (htakes base hbase)).trans hkey, hlast,
      first?_base hbatch h.keyed (hbatch n hn) hbase hsame, fun i hi => ?_⟩
    rw [settle_eq hkey hlast]
    exact cellAt_refresh_eq _ _ ((htakes base hbase).fits ▸ hi)
  · have hnone : positions u.table u.updated = [] := by simp [Upsert.updated, hkeep, positions]
    rw [hnone, List.map_congr_left fun r _ => settle_keep batch r, List.map_id']
    exact List.prefix_append ..

theorem held_upsertRows {u : Upsert} (hbatch : ∀ n ∈ batch, u.table.Takes n)
    (h : u.table.Held stored) : u.table.Held (upsertRows u batch stored) := by
  unfold upsertRows
  induction batch generalizing stored with
  | nil => exact h
  | cons n rest ih =>
    obtain ⟨hn, hrest⟩ := List.forall_mem_cons.mp hbatch
    exact ih hrest (held_upsertRow hn h)

theorem held_deleteRows {column : String} {values : List Cell} (h : t.Held stored) :
    t.Held (deleteRows t column values stored) := by
  unfold deleteRows
  split
  · exact ⟨fun r hr => h.takes r (List.mem_filter.mp hr).1, h.keyed.sublist List.filter_sublist⟩
  · exact h

end Batch

end Table

end KubeLedger
