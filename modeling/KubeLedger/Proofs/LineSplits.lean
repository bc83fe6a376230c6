import KubeLedger.Cluster.Watch

/- Lines do not depend on how a body was cut into chunks. A stretch of a body is what its chunks
   between two failures hold together. Its lines are the runs of bytes between line ends; what stands
   after the last line end is a line if the body ends there, and is lost if it breaks off.

   Splitting carries the line at hand from chunk to chunk. What carries the proof is that the bytes
   that were taken off so far can be forgotten: whatever follows, the pieces between line ends are
   those that were found and then those of the line at hand with what follows (`Splits`).

   Lines can also be asked for one after another. A reader keeps what is left of the present chunk,
   and looks for line ends only there (`LineReader.next?`); asked until it has no more, it gives the
   same lines. -/
namespace KubeLedger

open KubeLedger.Text

/-! ## What the lines of a body are -/

/-- The pieces that are not empty. -/
def filled (pieces : List Bytes) : List Bytes := pieces.filter fun piece => !piece.isEmpty

def runs (c : Bytes) : List Bytes := filled (c.splitOnP isLineEnd)

/-- The longest runs of bytes without a line end, but for one that no line end follows. -/
def endedRuns (c : Bytes) : List Bytes := filled (c.splitOnP isLineEnd).dropLast

/-- What the chunks between two failures hold together, after `c` of the first of them. -/
def stretchesFrom (c : Bytes) : List BodyItem → List Bytes
  | [] => [c]
  | .chunk bytes :: rest => stretchesFrom (c ++ bytes) rest
  | .failure :: rest => c :: stretchesFrom [] rest

/-- What the chunks of a body before, between and after its failures hold together. -/
def stretches (body : List BodyItem) : List Bytes := stretchesFrom [] body

/-- The lines of some stretches, with none for each failure between them. -/
def linesOf : List Bytes → List (Option Bytes)
  | [] => []
  | [c] => (runs c).map some
  | c :: rest => (endedRuns c).map some ++ none :: linesOf rest

def readable (results : List (Option Line)) : List (Option Bytes) :=
  results.filterMap fun l =>
    match l with
    | none => some none
    | some l => if l.isSpent then none else some (some l.flatten)

/-! ## Splitting at line ends -/

theorem filled_append (a b : List Bytes) : filled (a ++ b) = filled a ++ filled b :=
  List.filter_append a b

theorem filled_cons (piece : Bytes) (pieces : List Bytes) :
    filled (piece :: pieces) = if piece.isEmpty then filled pieces else piece :: filled pieces := by
  cases piece <;> simp [filled]

theorem Line.isSpent_iff {l : Line} : l.isSpent = true ↔ l.flatten = [] := by
  simp [Line.isSpent, List.flatten_eq_nil_iff]

theorem readable_append (a b : List (Option Line)) :
    readable (a ++ b) = readable a ++ readable b := List.filterMap_append

theorem readable_lines (ls : List Line) :
    readable (ls.map some) = (filled (ls.map List.flatten)).map some := by
  induction ls with
  | nil => rfl
  | cons l rest ih =>
    by_cases hspent : l.isSpent
    · have hempty := Line.isSpent_iff.mp hspent
      simpa [readable, filled, hspent, hempty] using ih
    · have hsome : l.flatten ≠ [] := fun h => hspent (Line.isSpent_iff.mpr h)
      simpa [readable, filled, hspent, hsome] using ih

theorem flatten_extend (current : Line) (piece : Bytes) :
    (extend current piece).flatten = current.flatten ++ piece.reverse := by
  unfold extend
  split
  · rename_i hempty
    simp [List.isEmpty_iff.mp hempty]
  · simp

/-- Some bytes hold some pieces that line ends follow, and then some bytes without a line end. -/
structure Splits (bytes : Bytes) (pieces : List Bytes) (last : Bytes) : Prop where
  plain : ∀ b ∈ last, isLineEnd b = false
  split : ∀ more, (bytes ++ more).splitOnP isLineEnd = pieces ++ (last ++ more).splitOnP isLineEnd

theorem Splits.of_plain {x : Bytes} (h : ∀ b ∈ x, isLineEnd b = false) : Splits x [] x :=
  ⟨h, fun _ => rfl⟩

/-- The lines that a chunk ends are the pieces before its line ends, and the line at hand after it is
what follows the last of them. -/
theorem splitChunk_splits {current : Line} {piece : Bytes}
    (hcurrent : ∀ b ∈ current.flatten ++ piece.reverse, isLineEnd b = false) (bs : Bytes) :
    ∃ pieces, Splits (current.flatten ++ piece.reverse ++ bs) pieces
        (splitChunk current piece bs).2.flatten ∧
      filled ((splitChunk current piece bs).1.map List.flatten) = filled pieces := by
  induction bs generalizing current piece with
  | nil =>
    refine ⟨[], ?_, rfl⟩
    simp only [splitChunk, flatten_extend, List.append_nil]
    exact .of_plain hcurrent
  | cons b rest ih =>
    by_cases hend : isLineEnd b
    · obtain ⟨pieces, hsplits, hlines⟩ := @ih [] [] (by simp)
      simp only [List.flatten_nil, List.reverse_nil, List.nil_append] at hsplits
      refine ⟨(current.flatten ++ piece.reverse) :: pieces, ⟨?_, fun more => ?_⟩, ?_⟩
      · simpa [splitChunk, hend] using hsplits.plain
      · simp only [splitChunk, hend, if_true]
        rw [List.append_assoc, List.cons_append,
          List.splitOnP_append_cons_of_forall_mem hcurrent b hend, hsplits.split more,
          List.cons_append]
      · simp only [splitChunk, hend, if_true]
        rw [filled_cons, ← hlines]
        by_cases hempty : (extend current piece).isEmpty
        · have hnone : (extend current piece).flatten = [] := by
            rw [List.isEmpty_iff.mp hempty, List.flatten_nil]
          rw [flatten_extend] at hnone
          simp [hempty, hnone]
        · simp only [hempty, Bool.false_eq_true, if_false, List.map_cons, flatten_extend,
            filled_cons]
    · have hmore : ∀ b' ∈ current.flatten ++ (b :: piece).reverse, isLineEnd b' = false := by
        intro b' hb'
        rw [List.reverse_cons, ← List.append_assoc, List.mem_append, List.mem_singleton] at hb'
        rcases hb' with hb' | rfl
        · exact hcurrent b' hb'
        · simpa using hend
      obtain ⟨pieces, hsplits, hlines⟩ := ih hmore
      refine ⟨pieces, ?_, ?_⟩
      · simpa [splitChunk, hend] using hsplits
      · simpa [splitChunk, hend] using hlines

theorem takeChunk_splits {current : Line} (hcurrent : ∀ b ∈ current.flatten, isLineEnd b = false)
    (chunk : Bytes) :
    ∃ pieces, Splits (current.flatten ++ chunk) pieces (takeChunk current chunk).2.flatten ∧
      filled ((takeChunk current chunk).1.map List.flatten) = filled pieces := by
  unfold takeChunk
  split
  · rename_i hempty
    refine ⟨[], ?_, rfl⟩
    simpa [List.isEmpty_iff.mp hempty] using Splits.of_plain hcurrent
  · simpa using @splitChunk_splits current [] (by simpa using hcurrent) chunk

/-! ## Lines against stretches -/

theorem stretchesFrom_ne_nil (c : Bytes) (body : List BodyItem) : stretchesFrom c body ≠ [] := by
  induction body generalizing c with
  | nil => simp [stretchesFrom]
  | cons item rest ih =>
    cases item with
    | chunk bytes => exact ih _
    | failure => simp [stretchesFrom]

theorem linesOf_failure (c : Bytes) (rest : List BodyItem) :
    linesOf (stretchesFrom c (.failure :: rest)) =
      (endedRuns c).map some ++ none :: linesOf (stretchesFrom [] rest) := by
  rw [stretchesFrom]
  exact linesOf.eq_3 c _ (stretchesFrom_ne_nil [] rest)

/-- The lines of a stretch are those that were ended in the bytes so far, and then those of the line
at hand with what follows. -/
theorem linesOf_stretchesFrom {x last : Bytes} {pieces : List Bytes}
    (h : ∀ more, (x ++ more).splitOnP isLineEnd = pieces ++ (last ++ more).splitOnP isLineEnd)
    (body : List BodyItem) :
    linesOf (stretchesFrom x body) =
      (filled pieces).map some ++ linesOf (stretchesFrom last body) := by
  induction body generalizing x last with
  | nil =>
    have hsplit := h []
    simp only [List.append_nil] at hsplit
    simp only [stretchesFrom, linesOf, runs, hsplit, filled_append, List.map_append]
  | cons item rest ih =>
    cases item with
    | chunk bytes =>
      refine ih fun more => ?_
      rw [List.append_assoc, List.append_assoc]
      exact h (bytes ++ more)
    | failure =>
      have hsplit := h []
      simp only [List.append_nil] at hsplit
      have hended : endedRuns x = filled pieces ++ endedRuns last := by
        rw [endedRuns, hsplit, List.dropLast_append_of_ne_nil (List.splitOnP_ne_nil _ _),
          filled_append, endedRuns]
      rw [linesOf_failure, linesOf_failure, hended, List.map_append, List.append_assoc]

/-- With a line at hand, the results are the lines of the stretches that begin with its bytes. -/
theorem readable_linesFrom {current : Line} (hcurrent : ∀ b ∈ current.flatten, isLineEnd b = false)
    (body : List BodyItem) :
    readable (linesFrom current body) = linesOf (stretchesFrom current.flatten body) := by
  induction body generalizing current with
  | nil =>
    have hsplit := List.splitOnP_eq_singleton hcurrent
    have hlines := readable_lines [current]
    simp only [List.map_cons, List.map_nil] at hlines
    by_cases hempty : current.isEmpty
    · rw [List.isEmpty_iff.mp hempty]
      simp [linesFrom, readable, stretchesFrom, linesOf, runs, filled]
    · simp only [linesFrom, hempty, Bool.false_eq_true, if_false, stretchesFrom, linesOf, runs,
        hsplit]
      exact hlines
  | cons item rest ih =>
    cases item with
    | chunk bytes =>
      obtain ⟨pieces, hsplits, hlines⟩ := takeChunk_splits hcurrent bytes
      rw [linesFrom, readable_append, readable_lines, hlines, ih hsplits.plain, stretchesFrom,
        linesOf_stretchesFrom hsplits.split]
    | failure =>
      -- the line at hand is all that the stretch has left, and it is lost
      have hlost : endedRuns current.flatten = [] := by
        rw [endedRuns, List.splitOnP_eq_singleton hcurrent]
        rfl
      rw [linesOf_failure, hlost, linesFrom]
      exact congrArg (none :: ·) (@ih [] (by simp))

theorem readable_lines_eq (body : List BodyItem) :
    readable (lines body) = linesOf (stretches body) :=
  @readable_linesFrom [] (by simp) body

/-! ## Chunks that are not empty -/

/-- A line of chunks that are not empty. -/
def Line.IsSolid (l : Line) : Prop := ∀ chunk ∈ l, chunk ≠ []

theorem solid_extend {current : Line} (h : current.IsSolid) (piece : Bytes) :
    (extend current piece).IsSolid := by
  unfold extend
  split
  · exact h
  · rename_i hsome
    intro chunk hchunk
    rcases List.mem_append.mp hchunk with hchunk | hchunk
    · exact h chunk hchunk
    · rw [List.mem_singleton.mp hchunk]
      simpa using hsome

theorem solid_splitChunk {current : Line} (h : current.IsSolid) (piece bs : Bytes) :
    (∀ l ∈ (splitChunk current piece bs).1, l.IsSolid ∧ l ≠ []) ∧
      (splitChunk current piece bs).2.IsSolid := by
  induction bs generalizing current piece with
  | nil => exact ⟨nofun, solid_extend h piece⟩
  | cons b rest ih =>
    by_cases hend : isLineEnd b
    · obtain ⟨hlines, hleft⟩ := @ih [] nofun []
      simp only [splitChunk, hend, if_true]
      refine ⟨fun l hl => ?_, hleft⟩
      split at hl
      · exact hlines l hl
      · rename_i hsome
        rcases List.mem_cons.mp hl with rfl | hl
        · exact ⟨solid_extend h piece, by simpa using hsome⟩
        · exact hlines l hl
    · simpa [splitChunk, hend] using ih h (b :: piece)

/-- Without empty chunks there is no line of no length. -/
theorem linesFrom_not_spent {current : Line} (h : current.IsSolid) {body : List BodyItem}
    (hbody : ∀ bytes, .chunk bytes ∈ body → bytes ≠ []) {l : Line}
    (hl : some l ∈ linesFrom current body) : l.isSpent = false := by
  have hsolid : l.IsSolid ∧ l ≠ [] := by
    induction body generalizing current with
    | nil =>
      unfold linesFrom at hl
      split at hl
      · cases hl
      · rename_i hsome
        obtain rfl : l = current := by simpa using hl
        exact ⟨h, by simpa using hsome⟩
    | cons item rest ih =>
      have hrest : ∀ bytes, .chunk bytes ∈ rest → bytes ≠ [] :=
        fun bytes hbytes => hbody bytes (List.mem_cons_of_mem _ hbytes)
      cases item with
      | chunk bytes =>
        have hbytes := hbody bytes List.mem_cons_self
        obtain ⟨hlines, hleft⟩ := solid_splitChunk h [] bytes
        have htake : takeChunk current bytes = splitChunk current [] bytes := by
          simp [takeChunk, hbytes]
        rw [linesFrom, htake, List.mem_append] at hl
        rcases hl with hl | hl
        · exact hlines l (by simpa using hl)
        · exact ih hleft hrest hl
      | failure =>
        have hlater : some l ∈ linesFrom [] rest := by simpa [linesFrom] using hl
        exact ih (List.forall_mem_nil _) hrest hlater
  obtain ⟨chunk, rest, rfl⟩ := List.exists_cons_of_ne_nil hsolid.2
  have hchunk := hsolid.1 chunk List.mem_cons_self
  simp [Line.isSpent, hchunk]

/-! ## Events -/

def WatchItem.ofLine : Option Bytes → WatchItem
  | none => .failure
  | some bytes =>
    match WatchEvent.read? bytes with
    | some e => .event e
    | none => .malformed

theorem watchItems_eq (body : List BodyItem) :
    watchItems body = (readable (lines body)).map WatchItem.ofLine := by
  unfold watchItems readable
  rw [List.map_filterMap]
  congr 1
  funext l
  cases l with
  | none => rfl
  | some l =>
    by_cases hspent : l.isSpent
    · simp [hspent]
    · simp only [hspent, Bool.false_eq_true, if_false, Option.map_some, WatchItem.ofLine]
      cases WatchEvent.read? l.flatten <;> rfl

/-! ## Lines one after another -/

/-- What stands before the first line ends of some bytes, and what stands after them. -/
def breakOff? : Bytes → Option (Bytes × Bytes)
  | [] => none
  | b :: rest =>
    if isLineEnd b then some ([], rest.dropWhile isLineEnd)
    else (breakOff? rest).map fun (first, left) => (b :: first, left)

theorem breakOff?_none {bytes : Bytes} (h : breakOff? bytes = none) :
    ∀ b ∈ bytes, isLineEnd b = false := by
  induction bytes with
  | nil => exact List.forall_mem_nil _
  | cons b rest ih =>
    unfold breakOff? at h
    split at h
    · cases h
    · rename_i hb
      exact List.forall_mem_cons.mpr ⟨by simpa using hb, ih (Option.map_eq_none_iff.mp h)⟩

theorem breakOff?_some {bytes first left : Bytes} (h : breakOff? bytes = some (first, left)) :
    ∃ e ends, bytes = first ++ e :: (ends ++ left) ∧ (∀ b ∈ first, isLineEnd b = false) ∧
      isLineEnd e ∧ ∀ b ∈ ends, isLineEnd b := by
  induction bytes generalizing first with
  | nil => cases h
  | cons b rest ih =>
    unfold breakOff? at h
    split at h
    · rename_i hb
      cases h
      exact ⟨b, rest.takeWhile isLineEnd, by rw [List.takeWhile_append_dropWhile]; rfl,
        List.forall_mem_nil _, hb,
        List.all_eq_true.mp List.all_takeWhile⟩
    · rename_i hb
      obtain ⟨⟨first', left'⟩, hbreak, hsame⟩ := Option.map_eq_some_iff.mp h
      cases hsame
      obtain ⟨e, ends, hbytes, hfirst, he, hends⟩ := ih hbreak
      exact ⟨e, ends, by rw [hbytes, List.cons_append],
        List.forall_mem_cons.mpr ⟨by simpa using hb, hfirst⟩, he, hends⟩

/-- A body on its way, and what is left of the chunk that arrived last. -/
structure LineReader where
  body : List BodyItem
  remaining : Option Bytes := none

namespace LineReader

def of (body : List BodyItem) : LineReader := { body }

/-- The next result with `current` as the line at hand, and the reader after it. -/
def nextFrom (current : Line) : Option Bytes → List BodyItem → Option (Option Line × LineReader)
  | some bytes, body =>
    match _h : breakOff? bytes with
    | some (first, left) =>
      let remaining := if left.isEmpty then none else some left
      let line := if first.isEmpty then current else current ++ [first]
      if line.isEmpty then nextFrom [] remaining body else some (some line, ⟨body, remaining⟩)
    | none => nextFrom (current ++ [bytes]) none body
  | none, .chunk bytes :: body => nextFrom current (some bytes) body
  | none, .failure :: body => some (none, ⟨body, none⟩)
  | none, [] => if current.isEmpty then none else some (some current, ⟨[], none⟩)
termination_by remaining body => (body.length, remaining.elim 0 fun bytes => bytes.length + 1)
decreasing_by
  · obtain ⟨e, ends, rfl, -⟩ := breakOff?_some _h
    refine Prod.Lex.right _ ?_
    split
    · simp
    · simp
      omega
  · exact Prod.Lex.right _ (Nat.succ_pos _)
  · exact Prod.Lex.left _ _ (Nat.lt_succ_self _)

/-- The next result: a line, or none for a failure. -/
def next? (r : LineReader) : Option (Option Line × LineReader) := nextFrom [] r.remaining r.body

/-- What a reader gives when it is asked again and again, until it has no more. -/
inductive Reads : LineReader → List (Option Line) → Prop
  | done {r : LineReader} : r.next? = none → Reads r []
  | more {r r' : LineReader} {x : Option Line} {results : List (Option Line)} :
    r.next? = some (x, r') → Reads r' results → Reads r (x :: results)

/-- The body that is left, with what is left of the last chunk as a chunk of its own. -/
def items (remaining : Option Bytes) (body : List BodyItem) : List BodyItem :=
  (remaining.map BodyItem.chunk).toList ++ body

end LineReader

theorem splitChunk_plain {current : Line} {piece first : Bytes}
    (h : ∀ b ∈ first, isLineEnd b = false) (rest : Bytes) :
    splitChunk current piece (first ++ rest) =
      splitChunk current (first.reverse ++ piece) rest := by
  induction first generalizing piece with
  | nil => rfl
  | cons b first ih =>
    have hb : isLineEnd b = false := h b List.mem_cons_self
    have hfirst : ∀ b ∈ first, isLineEnd b = false :=
      fun b hb => h b (List.mem_cons_of_mem _ hb)
    rw [List.cons_append, splitChunk, hb]
    simpa using ih hfirst

theorem takeChunk_plain {current : Line} {bytes : Bytes} (h : ∀ b ∈ bytes, isLineEnd b = false) :
    takeChunk current bytes = ([], current ++ [bytes]) := by
  have hsplit := @splitChunk_plain current [] bytes h []
  unfold takeChunk
  by_cases hempty : bytes.isEmpty
  · simp [List.isEmpty_iff.mp hempty]
  · simpa [hempty, splitChunk, extend] using hsplit

theorem splitChunk_ends {ends : Bytes} (h : ∀ b ∈ ends, isLineEnd b) (rest : Bytes) :
    splitChunk [] [] (ends ++ rest) = splitChunk [] [] rest := by
  induction ends with
  | nil => rfl
  | cons b ends ih =>
    have hb : isLineEnd b := h b List.mem_cons_self
    rw [List.cons_append, splitChunk, hb]
    simpa [extend] using ih fun b hb => h b (List.mem_cons_of_mem _ hb)

namespace LineReader

/-- A chunk gives the line that its first line ends end, if there is one, and then what is left of it
gives what it gives alone. -/
theorem linesFrom_break {bytes first left : Bytes} (h : breakOff? bytes = some (first, left))
    (current : Line) (body : List BodyItem) :
    linesFrom current (items (some bytes) body) =
      (if (extend current first.reverse).isEmpty then [] else [some (extend current first.reverse)]) ++
        linesFrom [] (items (if left.isEmpty then none else some left) body) := by
  obtain ⟨e, ends, hbytes, hfirst, he, hends⟩ := breakOff?_some h
  have htake : takeChunk current bytes = splitChunk current [] bytes := by
    simp [takeChunk, hbytes]
  have hleft : linesFrom [] (items (if left.isEmpty then none else some left) body) =
      (splitChunk [] [] left).1.map some ++ linesFrom (splitChunk [] [] left).2 body := by
    by_cases hempty : left.isEmpty
    · simp [List.isEmpty_iff.mp hempty, items, splitChunk, extend]
    · simp [hempty, items, linesFrom, takeChunk]
  have hsplit : splitChunk current [] bytes =
      (if (extend current first.reverse).isEmpty then (splitChunk [] [] left).1
        else extend current first.reverse :: (splitChunk [] [] left).1,
        (splitChunk [] [] left).2) := by
    rw [hbytes, splitChunk_plain hfirst, List.append_nil, splitChunk, he, if_pos rfl,
      splitChunk_ends hends]
  rw [hleft, items, Option.map_some, Option.toList_some, List.singleton_append, linesFrom, htake,
    hsplit]
  by_cases hnone : (extend current first.reverse).isEmpty
  · simp only [hnone, if_true, List.nil_append]
  · simp only [hnone, Bool.false_eq_true, if_false, List.map_cons, List.cons_append, List.nil_append]

theorem nextFrom_results (current : Line) (remaining : Option Bytes) (body : List BodyItem) :
    linesFrom current (items remaining body) =
      match nextFrom current remaining body with
      | none => []
      | some (x, r) => x :: linesFrom [] (items r.remaining r.body) := by
  fun_induction nextFrom current remaining body with
  | case1 current body bytes first left hbreak remaining line hempty ih =>
    have hline : extend current first.reverse = line := by simp [extend, line]
    rw [linesFrom_break hbreak, hline, if_pos hempty]
    exact ih
  | case2 current body bytes first left hbreak remaining line hsome =>
    have hline : extend current first.reverse = line := by simp [extend, line]
    rw [linesFrom_break hbreak, hline, if_neg hsome]
    rfl
  | case3 current body bytes hbreak ih =>
    rw [← ih]
    simp [items, linesFrom, takeChunk_plain (breakOff?_none hbreak)]
  | case4 current bytes body ih => exact ih
  | case5 current body => rfl
  | case6 current hempty => simp [items, linesFrom, hempty]
  | case7 current hsome => simp [items, linesFrom, hsome]

/-- A reader that is asked until it has no more gives the lines of its body. -/
theorem reads_iff {r : LineReader} {results : List (Option Line)} :
    r.Reads results ↔ results = linesFrom [] (items r.remaining r.body) := by
  constructor
  · intro h
    induction h with
    | done hnone => rw [nextFrom_results, ← next?, hnone]
    | more hsome _ ih => rw [nextFrom_results, ← next?, hsome, ih]
  · intro h
    induction results generalizing r with
    | nil =>
      rw [nextFrom_results, ← next?] at h
      cases hnext : r.next? with
      | none => exact .done hnext
      | some next => simp [hnext] at h
    | cons x rest ih =>
      rw [nextFrom_results, ← next?] at h
      cases hnext : r.next? with
      | none => simp [hnext] at h
      | some next =>
        obtain ⟨y, r'⟩ := next
        rw [hnext] at h
        obtain ⟨rfl, hrest⟩ := List.cons.inj h
        exact .more hnext (ih hrest)

end LineReader

/-- The lines of a body, asked for one after another, are those of its stretches, however it was cut
into chunks; and each of them that is not empty is read as one event, for itself. -/
theorem lines_exact (body : List BodyItem) :
    (∀ results, (LineReader.of body).Reads results ↔ results = lines body) ∧
    readable (lines body) = linesOf (stretches body) ∧
    (∀ other, stretches other = stretches body →
      readable (lines other) = readable (lines body)) ∧
    ((∀ bytes, .chunk bytes ∈ body → bytes ≠ []) → ∀ l, some l ∈ lines body → l.isSpent = false) ∧
    watchItems body = (linesOf (stretches body)).map WatchItem.ofLine := by
  refine ⟨fun results => LineReader.reads_iff, readable_lines_eq body, fun other h => ?_,
    fun h l hl => linesFrom_not_spent (List.forall_mem_nil _) h hl, ?_⟩
  · rw [readable_lines_eq, readable_lines_eq, h]
  · rw [watchItems_eq, readable_lines_eq]

end KubeLedger
