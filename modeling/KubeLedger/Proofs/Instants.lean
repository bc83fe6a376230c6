import Mathlib.Data.Fintype.Basic
import Mathlib.Data.List.TakeWhile
import Mathlib.Tactic.IntervalCases
import Mathlib.Tactic.NormNum
import Mathlib.Tactic.Push
import KubeLedger.Proofs.Literals
import KubeLedger.Telemetry.Prometheus

/- Points in time as they are sent. The evaluation time of a query is the last parameter of its
   address, written as the second it falls into, a point, and the milliseconds from there on. A reader
   takes that text for one signed decimal number, and a sign is the sign of all of it: behind the
   minus of a second before the epoch, the milliseconds count backwards (`sentMillis`). So the text
   denotes its point in time from the epoch on and on whole seconds, and nowhere else
   (`sentMillis_eq_iff`). Different points in time still have different texts, but within one second
   before the epoch they are in the reverse order. -/
namespace KubeLedger

open KubeLedger.Text

/-! ## Parameters of an address -/

namespace Http

/-- The last parameter in the query of an address, its name and its value as they are written. -/
def Url.lastParameter? (u : Url) : Option (String × String) :=
  u.query.bind fun q =>
    match cutAt (· == '=') (cutAtLast (· == '&') q.toList).2 with
    | (name, some value) => some (String.ofList name, String.ofList value)
    | (_, none) => none

/-- What separates parameters is escaped in names and values. -/
theorem formChars_separators (bs : Bytes) : ∀ c ∈ formChars bs, c ≠ '&' ∧ c ≠ '=' := by
  have hdigit : ∀ n < 16, upperHexDigit n ≠ '&' ∧ upperHexDigit n ≠ '=' := by decide
  intro c hc
  obtain ⟨b, -, hc⟩ := List.mem_flatMap.mp hc
  split at hc
  · rw [List.mem_singleton.mp hc]
    decide
  · split at hc
    · next hself =>
      rw [List.mem_singleton.mp hc]
      rcases Bool.or_eq_true_iff.mp hself with halnum | hmark
      · have hchar := (Bool.and_eq_true_iff.mp halnum).1
        exact ⟨fun he => absurd (he ▸ hchar) (by decide), fun he => absurd (he ▸ hchar) (by decide)⟩
      · obtain ⟨d, hd, heq⟩ := List.any_eq_true.mp hmark
        have hmem : Char.ofNat b.toNat ∈ ['*', '-', '.', '_'] := by
          rwa [← beq_iff_eq.mp heq, Char.ofNat_toNat]
        exact ⟨fun he => absurd (he ▸ hmem) (by decide), fun he => absurd (he ▸ hmem) (by decide)⟩
    · have hlt := b.toNat_lt
      rcases List.mem_cons.mp hc with rfl | hc
      · decide
      · rcases List.mem_cons.mp hc with rfl | hc
        · exact hdigit _ (by omega)
        · rw [List.mem_singleton.mp hc]
          exact hdigit _ (by omega)

theorem cutAt_append {p : Char → Bool} {front back : List Char} {c : Char}
    (hfront : ∀ d ∈ front, p d = false) (hc : p c = true) :
    cutAt p (front ++ c :: back) = (front, some back) := by
  have hpass : ∀ d ∈ front, (!p d) = true := by simpa using hfront
  unfold cutAt
  rw [List.span_eq_takeWhile_dropWhile, List.takeWhile_append_of_pos hpass,
    List.dropWhile_append_of_pos hpass]
  simp [hc]

theorem cutAt_of_none {p : Char → Bool} {cs : List Char} (h : ∀ d ∈ cs, p d = false) :
    cutAt p cs = (cs, none) := by
  have hpass : ∀ d ∈ cs, (!p d) = true := by simpa using h
  have htake : cs.takeWhile (!p ·) = cs := List.takeWhile_eq_self_iff.mpr hpass
  have hdrop : cs.dropWhile (!p ·) = [] := List.dropWhile_eq_nil_iff.mpr hpass
  unfold cutAt
  rw [List.span_eq_takeWhile_dropWhile, htake, hdrop]

theorem cutAtLast_append {p : Char → Bool} {front back : List Char} {c : Char}
    (hback : ∀ d ∈ back, p d = false) (hc : p c = true) :
    (cutAtLast p (front ++ c :: back)).2 = back := by
  have hcut : cutAt p (front ++ c :: back).reverse = (back.reverse, some front.reverse) := by
    rw [List.reverse_append, List.reverse_cons, List.append_assoc]
    exact cutAt_append (by simpa using hback) hc
  unfold cutAtLast
  rw [hcut]
  exact List.reverse_reverse back

theorem cutAtLast_of_none {p : Char → Bool} {cs : List Char} (h : ∀ d ∈ cs, p d = false) :
    (cutAtLast p cs).2 = cs := by
  have hcut : cutAt p cs.reverse = (cs.reverse, none) := cutAt_of_none (by simpa using h)
  unfold cutAtLast
  rw [hcut]

/-- A pair at the end of a query is its last parameter. -/
theorem lastParameter?_withPair (u : Url) (name value : String) :
    (u.withPair name value).lastParameter? = some (formText name, formText value) := by
  have hpair : ∀ c ∈ formChars (encode name) ++ '=' :: formChars (encode value),
      (c == '&') = false := by
    intro c hc
    rw [beq_eq_false_iff_ne]
    rcases List.mem_append.mp hc with hc | hc
    · exact (formChars_separators _ c hc).1
    · rcases List.mem_cons.mp hc with rfl | hc
      · decide
      · exact (formChars_separators _ c hc).1
  have hname : ∀ c ∈ formChars (encode name), (c == '=') = false := fun c hc =>
    beq_eq_false_iff_ne.mpr (formChars_separators _ c hc).2
  -- what stands before the pair ends in a separator, or there is nothing
  have hlast : ∃ q, (u.withPair name value).query = some q ∧
      (cutAtLast (· == '&') q.toList).2 =
        formChars (encode name) ++ '=' :: formChars (encode value) := by
    refine ⟨_, rfl, ?_⟩
    split
    · simpa [formText] using cutAtLast_of_none hpair
    · simpa [formText] using cutAtLast_of_none hpair
    · next q _ _ =>
      have hcut : (cutAtLast (· == '&') (q.toList ++ '&' :: _)).2 = _ :=
        cutAtLast_append hpair (beq_self_eq_true '&')
      simpa [formText] using hcut
  obtain ⟨q, hq, hlast⟩ := hlast
  unfold Url.lastParameter?
  rw [hq, Option.bind_some, hlast, cutAt_append hname (beq_self_eq_true '=')]
  rfl

/-- Digits, a minus and a point stand for themselves. -/
theorem formText_number {s : String}
    (h : ∀ c ∈ s.toList, c.isDigit = true ∨ c = '-' ∨ c = '.') : formText s = s := by
  have hchar : ∀ c : Char, c.isDigit = true ∨ c = '-' ∨ c = '.' →
      formChars (String.utf8EncodeChar c) = [c] := by
    rintro c (hdigit | rfl | rfl)
    · rw [Char.isDigit_iff_toNat] at hdigit
      obtain ⟨hlow, hhigh⟩ := hdigit
      have hc := c.ofNat_toNat
      simp only [Char.reduceToNat] at hlow hhigh
      generalize c.toNat = n at hlow hhigh hc
      subst hc
      interval_cases n <;> decide
    · decide
    · decide
  have hencode : encode s = s.toList.flatMap String.utf8EncodeChar := by
    unfold encode
    rw [String.toUTF8_eq_toByteArray, ← String.utf8Encode_toList, List.utf8Encode,
      List.data_toByteArray]
  have hall : ∀ cs : List Char, (∀ c ∈ cs, c.isDigit = true ∨ c = '-' ∨ c = '.') →
      formChars (cs.flatMap String.utf8EncodeChar) = cs := by
    intro cs hcs
    induction cs with
    | nil => rfl
    | cons c cs ih =>
      obtain ⟨hc, hcs⟩ := List.forall_mem_cons.mp hcs
      have hsplit : formChars ((c :: cs).flatMap String.utf8EncodeChar) =
          formChars (String.utf8EncodeChar c) ++ formChars (cs.flatMap String.utf8EncodeChar) := by
        simp [formChars]
      rw [hsplit, hchar c hc, ih hcs]
      rfl
  unfold formText
  rw [hencode, hall _ h, String.ofList_toList]

end Http

/-! ## The text of a point in time -/

namespace Prometheus

open Decimal

/-- The number of seconds that a reader takes a text for: a signed decimal number. -/
def seconds? (s : String) : Option ℚ := (Literal.read? s.toList).map Literal.value

/-- The second that a point in time falls into. -/
def secondOf (t : Int64) : Int := t.toInt / 1000

/-- The milliseconds from the start of that second. -/
def millisIn (t : Int64) : Nat := (t.toInt % 1000).toNat

/-- The milliseconds that the text of a point in time says. -/
def sentMillis (t : Int64) : Int :=
  if t.toInt < 0 then 1000 * secondOf t - millisIn t else 1000 * secondOf t + millisIn t

theorem millisIn_lt (t : Int64) : millisIn t < 1000 := by
  unfold millisIn
  omega

theorem toInt_eq (t : Int64) : t.toInt = 1000 * secondOf t + millisIn t := by
  unfold secondOf millisIn
  omega

theorem threeDigits_spec {n : Nat} (h : n < 1000) :
    (threeDigits n).toList.length = 3 ∧ natOfDigits (threeDigits n).toList = n ∧
      ∀ c ∈ (threeDigits n).toList, c.isDigit = true := by
  have hlength : (Nat.toDigits 10 n).length ≤ 3 :=
    (Nat.length_toDigits_le_iff (by decide) (by decide)).mpr h
  have htext : (threeDigits n).toList =
      List.replicate (3 - (Nat.toDigits 10 n).length) '0' ++ Nat.toDigits 10 n := by
    simp [threeDigits]
  rw [htext]
  refine ⟨?_, ?_, ?_⟩
  · rw [List.length_append, List.length_replicate]
    omega
  · rw [natOfDigits_zeros, natOfDigits_toDigits]
  · intro c hc
    rcases List.mem_append.mp hc with hc | hc
    · rw [List.eq_of_mem_replicate hc]
      decide
    · exact Nat.isDigit_of_mem_toDigits (by decide) (by decide) hc

/-- The digits of a whole number follow its sign. -/
theorem toList_toString (q : Int) : (toString q).toList =
    (if decide (q < 0) then ['-'] else []) ++ Nat.toDigits 10 q.natAbs := by
  cases q with
  | ofNat n =>
    have hsign : ¬ (Int.ofNat n < 0) := by simp
    rw [decide_eq_false hsign]
    show (Nat.repr n).toList = _
    simp [Nat.repr]
  | negSucc n =>
    have hsign : Int.negSucc n < 0 := Int.negSucc_lt_zero n
    rw [decide_eq_true hsign]
    show ("-" ++ Nat.repr (n + 1)).toList = _
    simp [Nat.repr]

theorem toList_timeText (t : Int64) : (timeText t).toList =
    (if decide (secondOf t < 0) then ['-'] else []) ++
      (Nat.toDigits 10 (secondOf t).natAbs ++ '.' :: (threeDigits (millisIn t)).toList) := by
  unfold timeText
  rw [String.toList_append, String.toList_append, show t.toInt / 1000 = secondOf t from rfl,
    toList_toString]
  simp [millisIn]

/-- The text is read as one number: the digits of the second with those of the milliseconds behind
them, under the sign of the second. -/
theorem seconds?_timeText (t : Int64) :
    seconds? (timeText t) = some ((sentMillis t : ℚ) / 1000) := by
  obtain ⟨hlength, hnumber, hdigits⟩ := threeDigits_spec (millisIn_lt t)
  have hwhole : ∀ c ∈ Nat.toDigits 10 (secondOf t).natAbs, c.isDigit = true :=
    fun c hc => Nat.isDigit_of_mem_toDigits (by decide) (by decide) hc
  have hread := Literal.read?_point (decide (secondOf t < 0)) Nat.toDigits_ne_nil hwhole hdigits
  have hsent : sentMillis t = (if secondOf t < 0 then -1 else 1) *
      ((secondOf t).natAbs * 1000 + millisIn t : Nat) := by
    have hsplit := toInt_eq t
    have hmillis := millisIn_lt t
    unfold sentMillis
    split <;> split <;> omega
  unfold seconds?
  rw [toList_timeText, hread, Option.map_some, Literal.value_point, hlength, hnumber,
    natOfDigits_toDigits, hsent]
  refine congrArg some ?_
  by_cases hneg : secondOf t < 0
  · norm_num [hneg]
  · norm_num [hneg]

theorem timeText_chars (t : Int64) :
    ∀ c ∈ (timeText t).toList, c.isDigit = true ∨ c = '-' ∨ c = '.' := by
  intro c hc
  rw [toList_timeText] at hc
  rcases List.mem_append.mp hc with hc | hc
  · split at hc
    · exact .inr (.inl (List.mem_singleton.mp hc))
    · cases hc
  · rcases List.mem_append.mp hc with hc | hc
    · exact .inl (Nat.isDigit_of_mem_toDigits (by decide) (by decide) hc)
    · rcases List.mem_cons.mp hc with rfl | hc
      · exact .inr (.inr rfl)
      · exact .inl ((threeDigits_spec (millisIn_lt t)).2.2 c hc)

/-- The text stands in the address as it is, in the last place. -/
theorem lastParameter?_queryUrl (p : Prometheus) (expression : String) (t : Int64) :
    (p.queryUrl expression (some t)).lastParameter? = some ("time", timeText t) := by
  have hname : Http.formText "time" = "time" := by decide +kernel
  have hvalue : Http.formText (timeText t) = timeText t := Http.formText_number (timeText_chars t)
  show (((p.base.below ["api", "v1", "query"]).withPair "query" expression).withPair "time"
    (timeText t)).lastParameter? = _
  rw [Http.lastParameter?_withPair, hname, hvalue]

/-! ## Where the text is right -/

theorem sentMillis_eq_iff (t : Int64) : sentMillis t = t.toInt ↔ 0 ≤ t.toInt ∨ 1000 ∣ t.toInt := by
  have hsplit := toInt_eq t
  have hmillis := millisIn_lt t
  unfold sentMillis
  split <;> omega

theorem sentMillis_inj {t u : Int64} : sentMillis t = sentMillis u ↔ t = u := by
  refine ⟨fun h => Int64.toInt_inj.mp ?_, congrArg sentMillis⟩
  have ht := toInt_eq t
  have hu := toInt_eq u
  have htm := millisIn_lt t
  have hum := millisIn_lt u
  unfold sentMillis at h
  split at h <;> split at h <;> omega

/-- The order is kept, but for points in time within one second before the epoch. -/
theorem sentMillis_lt_iff {t u : Int64} (h : t < u) :
    sentMillis t < sentMillis u ↔ 0 ≤ t.toInt ∨ secondOf t < secondOf u := by
  have horder := Int64.lt_iff_toInt_lt.mp h
  have ht := toInt_eq t
  have hu := toInt_eq u
  have htm := millisIn_lt t
  have hum := millisIn_lt u
  unfold sentMillis
  split <;> split <;> omega

/-! ## Queries at a point in time -/

/-- The point in time that an address asks about, in seconds: its last parameter, if that is a
time. -/
def instant? (u : Http.Url) : Option ℚ :=
  u.lastParameter?.bind fun (name, value) => if name = "time" then seconds? value else none

theorem instant?_queryUrl (p : Prometheus) (expression : String) (t : Int64) :
    instant? (p.queryUrl expression (some t)) = some ((sentMillis t : ℚ) / 1000) := by
  unfold instant?
  rw [lastParameter?_queryUrl, Option.bind_some]
  exact seconds?_timeText t

/-- The time of a query is sent as its point in time exactly from the epoch on and on whole seconds.
Before the epoch the milliseconds are sent as if they counted backwards. Different points in time
still have different parameters and denote different numbers; a later one denotes the greater number,
unless both lie within one second before the epoch. -/
theorem time_denotes_iff (p : Prometheus) (expression : String) (t : Int64) :
    let sent (t : Int64) := p.queryUrl expression (some t)
    instant? (sent t) = some ((sentMillis t : ℚ) / 1000) ∧
    (instant? (sent t) = some ((t.toInt : ℚ) / 1000) ↔ 0 ≤ t.toInt ∨ 1000 ∣ t.toInt) ∧
    (∀ u, (sent t).lastParameter? = (sent u).lastParameter? ↔ t = u) ∧
    ∀ u, t < u → ∃ x y, instant? (sent t) = some x ∧ instant? (sent u) = some y ∧ x ≠ y ∧
      (x < y ↔ 0 ≤ t.toInt ∨ secondOf t < secondOf u) := by
  intro sent
  have hsent : ∀ t, instant? (sent t) = some ((sentMillis t : ℚ) / 1000) :=
    instant?_queryUrl p expression
  have hscale : ∀ a b : Int, (a : ℚ) / 1000 = b / 1000 ↔ a = b := by
    intro a b
    rw [div_left_inj' (by norm_num), Int.cast_inj]
  refine ⟨hsent t, ?_, fun u => ⟨fun h => ?_, fun h => h ▸ rfl⟩, fun u h => ?_⟩
  · rw [hsent, Option.some.injEq, hscale, sentMillis_eq_iff]
  · have hinstant : instant? (sent t) = instant? (sent u) := by
      unfold instant?
      rw [h]
    rw [hsent, hsent, Option.some.injEq, hscale] at hinstant
    exact sentMillis_inj.mp hinstant
  · refine ⟨_, _, hsent t, hsent u, ?_, ?_⟩
    · rw [ne_eq, hscale, sentMillis_inj]
      rintro rfl
      exact absurd h (by simp)
    · rw [div_lt_div_iff_of_pos_right (by norm_num), Int.cast_lt, sentMillis_lt_iff h]

/-- Two points in time within a second after the epoch are sent as they are. -/
theorem time_denotes_iff_after_epoch :
    let p : Prometheus :=
      ⟨⟨"http", some ⟨none, "prometheus", some 9090⟩, .segments [""], none, none⟩⟩
    (1700000000250 : Int64) < 1700000000251 ∧
      instant? (p.queryUrl "up" (some 1700000000250)) = some (1700000000250 / 1000) ∧
      ∃ x y, instant? (p.queryUrl "up" (some 1700000000250)) = some x ∧
        instant? (p.queryUrl "up" (some 1700000000251)) = some y ∧ x < y := by
  intro p
  have hlater : (1700000000250 : Int64) < 1700000000251 := by decide
  obtain ⟨-, hdenotes, -, horder⟩ := time_denotes_iff p "up" 1700000000250
  obtain ⟨x, y, hx, hy, -, hless⟩ := horder 1700000000251 hlater
  refine ⟨hlater, ?_, x, y, hx, hy, hless.mpr (.inl (by decide))⟩
  have hvalue := hdenotes.mpr (.inl (by decide))
  exact hvalue

/-- A millisecond before the epoch is sent as two seconds before it, short of one millisecond, and the
millisecond before that one as a later point in time. -/
theorem time_backwards :
    let p : Prometheus :=
      ⟨⟨"http", some ⟨none, "prometheus", some 9090⟩, .segments [""], none, none⟩⟩
    (p.queryUrl "up" (some (-1))).lastParameter? = some ("time", "-1.999") ∧
      instant? (p.queryUrl "up" (some (-1))) = some (-1999 / 1000) ∧
      (-1999 / 1000 : ℚ) ≠ ((-1 : Int64).toInt : ℚ) / 1000 ∧
      (-2 : Int64) < -1 ∧ instant? (p.queryUrl "up" (some (-2))) = some (-1998 / 1000) ∧
      (-1999 / 1000 : ℚ) < -1998 / 1000 := by
  intro p
  have htext : timeText (-1) = "-1.999" := by decide +kernel
  have hone : sentMillis (-1) = -1999 := by decide
  have htwo : sentMillis (-2) = -1998 := by decide
  have hunit : (-1 : Int64).toInt = -1 := by decide
  refine ⟨?_, ?_, ?_, by decide, ?_, by norm_num⟩
  · rw [lastParameter?_queryUrl, htext]
  · rw [instant?_queryUrl, hone]
    norm_num
  · rw [hunit]
    norm_num
  · rw [instant?_queryUrl, htwo]
    norm_num

end Prometheus

end KubeLedger
