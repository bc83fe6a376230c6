import Mathlib.Data.Option.Basic
import KubeLedger.Proofs.LineSplits

/- Lines that are read into buffers. A read goes in rounds. Each copies as much of the first chunk as
   the rest of the buffer takes and cuts both, and takes the chunk off once nothing is left of it; what
   a round indexes or cuts out of range would be a fault (`Filling.round?`). No round comes to that
   and the rounds come to an end, with what `Line.read` says (`Filling.ends_iff`): a read takes the
   bytes of the line from the front, and the chunks they are held in leave no trace
   (`Line.read_bytes`, `Line.read_left`). So whatever buffers a line is read into, no byte is lost
   and no read comes back empty before the end (`reads_exact`). -/
namespace KubeLedger

open KubeLedger.Text

/-! ## What a read takes -/

namespace Line

theorem read_bytes (size : Nat) (l : Line) : (l.read size).1 = l.flatten.take size := by
  fun_induction Line.read size l with
  | case1 size => simp
  | case2 chunk rest => simp
  | case3 size chunk rest hsize hshort =>
    rw [List.flatten_cons, List.take_append_of_le_length (Nat.le_of_lt hshort)]
  | case4 size chunk rest hsize hlong bytes left hread ih =>
    rw [hread] at ih
    rw [List.flatten_cons, List.take_append, List.take_of_length_le (Nat.le_of_not_lt hlong), ← ih]

theorem read_left (size : Nat) (l : Line) : (l.read size).2.flatten = l.flatten.drop size := by
  fun_induction Line.read size l with
  | case1 size => simp
  | case2 chunk rest => simp
  | case3 size chunk rest hsize hshort =>
    rw [List.flatten_cons, List.flatten_cons, List.drop_append_of_le_length (Nat.le_of_lt hshort)]
  | case4 size chunk rest hsize hlong bytes left hread ih =>
    rw [hread] at ih
    rw [List.flatten_cons, List.drop_append, List.drop_of_length_le (Nat.le_of_not_lt hlong), ← ih,
      List.nil_append]

theorem read_append (size : Nat) (l : Line) :
    (l.read size).1 ++ (l.read size).2.flatten = l.flatten := by
  rw [read_bytes, read_left, List.take_append_drop]

/-- Reads into buffers of one size, until one gives nothing, give the whole line. -/
theorem bytesBy_eq {size : Nat} (hsize : 0 < size) (l : Line) : l.bytesBy size = l.flatten := by
  have hall : ∀ (fuel : Nat) (l : Line), l.flatten.length < fuel →
      l.readAll size fuel = l.flatten := by
    intro fuel
    induction fuel with
    | zero => exact fun l h => absurd h (Nat.not_lt_zero _)
    | succ fuel ih =>
      intro l h
      have hbytes := read_bytes size l
      have hleft := read_left size l
      have hparts := read_append size l
      unfold readAll
      generalize l.read size = r at hbytes hleft hparts
      obtain ⟨bytes, left⟩ := r
      dsimp only at hbytes hleft hparts ⊢
      cases bytes with
      | nil =>
        have hnone : l.flatten = [] := by
          rcases List.take_eq_nil_iff.mp hbytes.symm with hzero | hnone
          · omega
          · exact hnone
        exact hnone.symm
      | cons b bytes =>
        have hlength := congrArg List.length hparts
        simp only [List.cons_append, List.length_cons, List.length_append] at hlength
        dsimp only
        rw [ih left (by omega), hparts]
  exact hall _ l (Nat.lt_succ_self _)

end Line

/-! ## The rounds of a read -/

/-- What stands between two positions; none if they are out of range. -/
def slice? {α : Type} (xs : List α) (first last : Nat) : Option (List α) :=
  if first ≤ last ∧ last ≤ xs.length then some ((xs.take last).drop first) else none

theorem slice?_front {α : Type} {xs : List α} {n : Nat} (h : n ≤ xs.length) :
    slice? xs 0 n = some (xs.take n) := by
  simp [slice?, h]

theorem slice?_back {α : Type} {xs : List α} {n : Nat} (h : n ≤ xs.length) :
    slice? xs n xs.length = some (xs.drop n) := by
  simp [slice?, h]

/-- A read under way: the chunks that are left of the line, the part of the buffer that has been
filled, the rest of the buffer with whatever stands there, and the number of bytes written. -/
structure Filling where
  chunks : Line
  front : Bytes
  dest : Bytes
  count : Nat

/-- What a read returns: the number of bytes written, and the buffer. -/
structure Returned where
  count : Nat
  buffer : Bytes

def Returned.bytes (r : Returned) : Bytes := r.buffer.take r.count

namespace Filling

/-- A read of which no round has been made. -/
def start (l : Line) (buffer : Bytes) : Filling := ⟨l, [], buffer, 0⟩

/-- Whether no round follows: the line or the buffer has come to its end. -/
def isDone (f : Filling) : Bool := f.chunks.isEmpty || f.dest.isEmpty

/-- What is returned when no round follows. -/
def returned (f : Filling) : Returned := ⟨f.count, f.front ++ f.dest⟩

/-- One round; none if it indexes or cuts out of range, or copies between stretches that are not of
one length. -/
def round? (f : Filling) : Option Filling := do
  let chunk ← f.chunks[0]?
  let count := min f.dest.length chunk.length
  let source ← slice? chunk 0 count
  let target ← slice? f.dest 0 count
  guard (source.length = target.length)
  let dest ← slice? f.dest count f.dest.length
  let rest ← slice? chunk count chunk.length
  let chunks ← if rest.isEmpty then slice? f.chunks 1 f.chunks.length else some (f.chunks.set 0 rest)
  return ⟨chunks, f.front ++ source, dest, f.count + count⟩

/-- How a read ends, round by round: with the state in which no round follows, or with none for a
fault. -/
inductive Ends : Filling → Option Filling → Prop
  | done {f : Filling} : f.isDone = true → Ends f (some f)
  | fault {f : Filling} : f.isDone = false → f.round? = none → Ends f none
  | round {f g : Filling} {r : Option Filling} :
    f.isDone = false → f.round? = some g → Ends g r → Ends f r

section Rounds
variable {f g : Filling} {r : Option Filling}

theorem ends_of_done (h : f.isDone = true) : Ends f r ↔ r = some f := by
  constructor
  · intro hends
    cases hends with
    | done => rfl
    | fault hmore => cases h.symm.trans hmore
    | round hmore => cases h.symm.trans hmore
  · rintro rfl
    exact .done h

theorem ends_of_round (h : f.isDone = false) (hround : f.round? = some g) :
    Ends f r ↔ Ends g r := by
  constructor
  · intro hends
    cases hends with
    | done hdone => cases h.symm.trans hdone
    | fault _ hnone => cases hround.symm.trans hnone
    | round _ hsome hrest =>
      obtain rfl := Option.some.inj (hround.symm.trans hsome)
      exact hrest
  · exact .round h hround

end Rounds

theorem round?_cons (chunk : Bytes) (rest : Line) (front dest : Bytes) (count : Nat) :
    round? ⟨chunk :: rest, front, dest, count⟩ =
      some ⟨if dest.length < chunk.length then chunk.drop dest.length :: rest else rest,
        front ++ chunk.take dest.length, dest.drop chunk.length,
        count + min dest.length chunk.length⟩ := by
  have hdest := Nat.min_le_left dest.length chunk.length
  have hchunk := Nat.min_le_right dest.length chunk.length
  have hlengths : (chunk.take (min dest.length chunk.length)).length =
      (dest.take (min dest.length chunk.length)).length := by
    rw [List.length_take_of_le hchunk, List.length_take_of_le hdest]
  simp only [round?, List.getElem?_cons_zero, Option.bind_eq_bind, Option.bind_some,
    slice?_front hchunk, slice?_front hdest, hlengths, guard, if_true, slice?_back hdest,
    slice?_back hchunk, Option.pure_def]
  by_cases hshort : dest.length < chunk.length
  · have hrest : ¬(chunk.drop dest.length).isEmpty = true := by
      simpa using hshort
    simp [hrest, hshort, Nat.le_of_lt hshort]
  · have hlong := Nat.le_of_not_lt hshort
    have hmin := Nat.min_eq_right hlong
    simp [hmin, hshort, List.take_of_length_le hlong, slice?]

/-- A read ends, without a fault, with the bytes and the line that `Line.read` gives. -/
theorem ends_iff (l : Line) (front dest : Bytes) (count : Nat) (r : Option Filling) :
    Ends ⟨l, front, dest, count⟩ r ↔
      r = some ⟨(l.read dest.length).2, front ++ (l.read dest.length).1,
        dest.drop (l.read dest.length).1.length, count + (l.read dest.length).1.length⟩ := by
  induction l generalizing front dest count with
  | nil =>
    rw [ends_of_done rfl]
    simp [Line.read]
  | cons chunk rest ih =>
    by_cases hfull : dest = []
    · subst hfull
      rw [ends_of_done rfl]
      simp [Line.read]
    · have hsize : dest.length ≠ 0 := by simpa using hfull
      have hmore : isDone ⟨chunk :: rest, front, dest, count⟩ = false := by simpa [isDone] using hfull
      rw [ends_of_round hmore (round?_cons ..)]
      by_cases hshort : dest.length < chunk.length
      · -- the chunk is longer than the buffer, and the next round finds the buffer full
        have hdest : dest.drop chunk.length = [] := List.drop_of_length_le (Nat.le_of_lt hshort)
        have hmin := Nat.min_eq_left (Nat.le_of_lt hshort)
        rw [ends_of_done (by simp [isDone, hdest])]
        simp [Line.read, hsize, hshort, hdest, hmin]
      · have hlong := Nat.le_of_not_lt hshort
        have hmin := Nat.min_eq_right hlong
        rw [if_neg hshort, List.take_of_length_le hlong, ih, List.length_drop]
        simp [Line.read, hsize, hshort, hmin, Nat.add_assoc]

end Filling

/-! ## Reads one after another -/

namespace Line

/-- Reads of a line into one buffer after another, as `Line.read` says: what each of them returns, and
the line that is left. -/
def reads : List Bytes → Line → List Returned × Line
  | [], l => ([], l)
  | buffer :: buffers, l =>
    let (bytes, left) := l.read buffer.length
    let (more, last) := reads buffers left
    (⟨bytes.length, bytes ++ buffer.drop bytes.length⟩ :: more, last)

/-- Reads of a line into one buffer after another, round by round; none after a fault. -/
inductive Reads : Line → List Bytes → Option (List Returned × Line) → Prop
  | done {l : Line} : Reads l [] (some ([], l))
  | fault {l : Line} {buffer : Bytes} {buffers : List Bytes} :
    (Filling.start l buffer).Ends none → Reads l (buffer :: buffers) none
  | read {l : Line} {buffer : Bytes} {buffers : List Bytes} {f : Filling}
      {r : Option (List Returned × Line)} :
    (Filling.start l buffer).Ends (some f) → Reads f.chunks buffers r →
      Reads l (buffer :: buffers) (r.map fun (more, last) => (f.returned :: more, last))

/-- Reads come to an end, without a fault, and in one way. -/
theorem reads_iff {l : Line} {buffers : List Bytes} {r : Option (List Returned × Line)} :
    l.Reads buffers r ↔ r = some (reads buffers l) := by
  induction buffers generalizing l r with
  | nil =>
    constructor
    · rintro ⟨⟩
      rfl
    · rintro rfl
      exact .done
  | cons buffer buffers ih =>
    have hends : ∀ r, (Filling.start l buffer).Ends r ↔ _ :=
      Filling.ends_iff l [] buffer 0
    simp only [List.nil_append, Nat.zero_add] at hends
    constructor
    · intro h
      cases h with
      | fault hfault => cases (hends _).mp hfault
      | read hread hrest =>
        obtain rfl := Option.some.inj ((hends _).mp hread)
        rw [ih.mp hrest]
        rfl
    · rintro rfl
      exact .read ((hends _).mpr rfl) (ih.mpr rfl)

theorem reads_length (buffers : List Bytes) (l : Line) :
    (reads buffers l).1.length = buffers.length := by
  induction buffers generalizing l with
  | nil => rfl
  | cons buffer buffers ih => simp [reads, ih]

/-- What was read stands before what is left. -/
theorem reads_append (buffers : List Bytes) (l : Line) :
    (reads buffers l).1.flatMap Returned.bytes ++ (reads buffers l).2.flatten = l.flatten := by
  induction buffers generalizing l with
  | nil => rfl
  | cons buffer buffers ih =>
    have hparts := read_append buffer.length l
    simp only [reads, List.flatMap_cons, List.append_assoc, ih]
    simpa [Returned.bytes] using hparts

/-- A read returns nothing only at the end of the line, and fills its buffer before it. -/
theorem returned_of_read {buffer : Bytes} (hroom : buffer ≠ []) (l : Line) :
    ((l.read buffer.length).1.length = 0 ↔ l.flatten = []) ∧
      ((l.read buffer.length).1.length = buffer.length ∨
        (l.read buffer.length).1 = l.flatten) := by
  have hsize : 0 < buffer.length := List.length_pos_iff.mpr hroom
  rw [read_bytes, List.length_take]
  refine ⟨?_, ?_⟩
  · rw [← List.length_eq_zero_iff]
    omega
  · rcases Nat.le_total buffer.length l.flatten.length with hlong | hshort
    · exact .inl (Nat.min_eq_left hlong)
    · exact .inr (List.take_of_length_le hshort)

theorem reads_each {l : Line} {buffers : List Bytes} (hroom : ∀ buffer ∈ buffers, buffer ≠ [])
    {earlier later : List Returned} {r : Returned}
    (h : (reads buffers l).1 = earlier ++ r :: later) :
    ∃ buffer, buffers[earlier.length]? = some buffer ∧ r.bytes.length = r.count ∧
      (r.count = 0 ↔ earlier.flatMap Returned.bytes = l.flatten) ∧
      (r.count = buffer.length ∨ earlier.flatMap Returned.bytes ++ r.bytes = l.flatten) := by
  induction buffers generalizing l earlier with
  | nil => simp [reads] at h
  | cons buffer buffers ih =>
    obtain ⟨hbuffer, hbuffers⟩ := List.forall_mem_cons.mp hroom
    have hparts := read_append buffer.length l
    cases earlier with
    | nil =>
      obtain ⟨hzero, hfull⟩ := returned_of_read hbuffer l
      obtain ⟨rfl, -⟩ := List.cons.inj h
      refine ⟨buffer, rfl, by simp [Returned.bytes], ?_, ?_⟩
      · rw [hzero, List.flatMap_nil, eq_comm]
      · simpa [Returned.bytes] using hfull
    | cons first earlier =>
      obtain ⟨rfl, hrest⟩ := List.cons.inj h
      obtain ⟨next, hnext, hcount, hzero, hfull⟩ := ih hbuffers hrest
      refine ⟨next, by simpa using hnext, hcount, ?_, ?_⟩
      · rw [hzero, ← hparts]
        simp [Returned.bytes]
      · rw [← hparts]
        simpa [Returned.bytes] using hfull

end Line

/-- A line is read into buffers that are not empty, one after another. The reads come to an end
without a fault, and in one way. What they return is a prefix of the line, all of it exactly if the
line that is left is spent; a read returns no bytes exactly if the earlier ones returned all of them,
and it fills its buffer unless it returns the last of them. -/
theorem reads_exact (l : Line) (buffers : List Bytes) (hroom : ∀ buffer ∈ buffers, buffer ≠ []) :
    ∃ returned left, (∀ r, l.Reads buffers r ↔ r = some (returned, left)) ∧
      returned.length = buffers.length ∧
      returned.flatMap Returned.bytes <+: l.flatten ∧
      (left.isSpent = true ↔ returned.flatMap Returned.bytes = l.flatten) ∧
      ∀ earlier r later, returned = earlier ++ r :: later →
        ∃ buffer, buffers[earlier.length]? = some buffer ∧ r.bytes.length = r.count ∧
          (r.count = 0 ↔ earlier.flatMap Returned.bytes = l.flatten) ∧
          (r.count = buffer.length ∨ earlier.flatMap Returned.bytes ++ r.bytes = l.flatten) := by
  have happend := Line.reads_append buffers l
  refine ⟨_, _, fun r => Line.reads_iff, Line.reads_length buffers l, ⟨_, happend⟩, ?_,
    fun earlier r later => Line.reads_each hroom⟩
  rw [Line.isSpent_iff, ← happend]
  simp

/-- It applies to a line with empty chunks at its start, between its bytes and at its end: the first
buffer is filled across one of them, and the second is not. -/
theorem reads_exact_gaps :
    let l : Line := [[], [1], [], [2, 3], []]
    let buffers : List Bytes := [[0, 0], [0, 0]]
    (∀ buffer ∈ buffers, buffer ≠ []) ∧
      ∃ left, l.Reads buffers (some ([⟨2, [1, 2]⟩, ⟨1, [3, 0]⟩], left)) ∧ left.isSpent = true := by
  intro l buffers
  have hroom : ∀ buffer ∈ buffers, buffer ≠ [] := by decide
  obtain ⟨returned, left, hreads, -, -, hspent, -⟩ := reads_exact l buffers hroom
  have hrun : Line.reads buffers l = (returned, left) :=
    Option.some.inj ((hreads _).mp (Line.reads_iff.mpr rfl))
  have hreturned : [⟨2, [1, 2]⟩, ⟨1, [3, 0]⟩] = returned := congrArg Prod.fst hrun
  subst hreturned
  exact ⟨hroom, left, (hreads _).mpr rfl, hspent.mpr rfl⟩

end KubeLedger
