import KubeLedger.Proofs.Doubles
import KubeLedger.Proofs.Literals

/- Which double a literal denotes: the one nearest to the exact number that it writes
   (`Literal.of_toFloat`), however many digits and whatever exponent it has. Short literals are
   computed by one operation on exact doubles, long ones from their digits, and literals far out of
   range are not computed at all; all three give the nearest double (`of_ofScientific`, `of_nearest`).
   So a literal denotes a finite double exactly if its number lies below the overflow
   (`Literal.isFinite_iff`). -/
namespace KubeLedger.Decimal

open Float.Model Float.Model.UnpackedFloat

variable {v : ℚ} {m n : ℕ} {e : ℤ}

/-! ## Out of range -/

theorem Reading.nearest_of_overflow (negative : Bool) (h : overflow ≤ v) :
    nearest negative v = .infinite negative := by
  obtain ⟨hlt, -⟩ | ⟨-, hinfinite⟩ := nearest_cases negative (overflow_nonneg.trans h)
  · exact absurd hlt (not_lt.mpr h)
  · exact hinfinite

/-- Below the half of the lowest place numbers are nearest to zero. -/
theorem Reading.nearest_of_tiny (negative : Bool) (h : v < 2 ^ (-1075 : ℤ)) :
    nearest negative v = .finite ⟨negative, 0, -1074⟩ := by
  have hplace : place v = -1074 :=
    place_eq le_rfl (h.trans (two_zpow_lt_iff.mpr (by norm_num))) (.inr rfl)
  have hhalf : v / 2 ^ (-1074 : ℤ) < 1 / 2 := by
    rw [div_lt_iff₀ (two_zpow_pos _)]
    refine h.trans_eq ?_
    rw [show (-1075 : ℤ) = -1 + -1074 by norm_num, two_zpow_add]
    norm_num
  have hfloor : ⌊v / 2 ^ (-1074 : ℤ)⌋₊ = 0 := Nat.floor_eq_zero.mpr (hhalf.trans (by norm_num))
  have hsignificand : significand v = 0 := by
    rw [significand, hplace, nearestEven, hfloor, Nat.cast_zero, zero_add, if_pos hhalf]
  simp [nearest, rounded, hplace, hsignificand]

theorem ten_zpow_pos (e : ℤ) : (0 : ℚ) < 10 ^ e := zpow_pos (by norm_num) e

/-- Powers of ten lie above powers of eight. -/
theorem two_zpow_le_ten_zpow (he : 0 ≤ e) : (2 : ℚ) ^ (3 * e) ≤ 10 ^ e := by
  obtain ⟨k, rfl⟩ := Int.eq_ofNat_of_zero_le he
  rw [zpow_mul]
  exact zpow_le_zpow_left₀ he (by norm_num) (by norm_num)

/-- A number of many digits is too great. -/
theorem overflow_le_ten_zpow (he : 342 ≤ e) : overflow ≤ 10 ^ e := by
  calc overflow ≤ 2 ^ (1024 : ℤ) := sub_le_self _ (two_zpow_pos _).le
    _ ≤ 2 ^ (3 * e) := two_zpow_le_iff.mpr (by omega)
    _ ≤ 10 ^ e := two_zpow_le_ten_zpow (by omega)

/-- A number of many zeros behind its point is too small. -/
theorem ten_zpow_le (he : e ≤ 0) : (10 : ℚ) ^ e ≤ 2 ^ (3 * e) := by
  have hinv := two_zpow_le_ten_zpow (e := -e) (by omega)
  rw [mul_neg, zpow_neg, zpow_neg] at hinv
  exact (inv_le_inv₀ (two_zpow_pos _) (ten_zpow_pos e)).mp hinv

/-- A number of few binary places in front of many zeros is too small. -/
theorem mul_ten_zpow_lt (he : e ≤ 0) (h : (m.log2 : ℤ) + 1 + 3 * e ≤ -1075) :
    (m * 10 ^ e : ℚ) < 2 ^ (-1075 : ℤ) := by
  have hlog : (m : ℚ) < 2 ^ ((m.log2 : ℤ) + 1) := by exact_mod_cast Nat.lt_log2_self (n := m)
  calc (m * 10 ^ e : ℚ) ≤ m * 2 ^ (3 * e) :=
        mul_le_mul_of_nonneg_left (ten_zpow_le he) (Nat.cast_nonneg _)
    _ < 2 ^ ((m.log2 : ℤ) + 1) * 2 ^ (3 * e) := mul_lt_mul_of_pos_right hlog (two_zpow_pos _)
    _ = 2 ^ ((m.log2 : ℤ) + 1 + 3 * e) := (two_zpow_add _ _).symm
    _ ≤ 2 ^ (-1075 : ℤ) := two_zpow_le_iff.mpr h

/-! ## Finite doubles -/

theorem isFinite_iff_of_nearest {x : Float} {negative : Bool}
    (h : Reading.of x = .nearest negative v) (hv : 0 ≤ v) : isFinite x = true ↔ v < overflow := by
  unfold isFinite
  rw [h]
  obtain ⟨hlt, b, hb, -⟩ | ⟨hover, hinfinite⟩ := Reading.nearest_cases negative hv
  · rw [hb]
    exact iff_of_true rfl hlt
  · rw [hinfinite]
    exact iff_of_false Bool.false_ne_true (not_lt.mpr hover)

theorem infinite_of_nearest {x : Float} {negative : Bool}
    (h : Reading.of x = .nearest negative v) (hv : 0 ≤ v) (hx : isFinite x = false) :
    Reading.of x = .infinite negative := by
  have hover : overflow ≤ v := by
    rw [← not_lt, ← isFinite_iff_of_nearest h hv, hx]
    exact Bool.false_ne_true
  rw [h, Reading.nearest_of_overflow negative hover]

/-- A product of doubles that are not too great is the product of what they were rounded to, rounded
once more. -/
theorem Reading.of_mul_nearest {x y : Float} {w : ℚ} {a b : Bool} (hx : of x = nearest a v)
    (hy : of y = nearest b w) (hv : 0 ≤ v) (hw : 0 ≤ w) (hvlt : v < overflow) (hwlt : w < overflow) :
    of (x * y) = nearest (a != b) (rounded v * rounded w) := by
  obtain ⟨-, c, hc, rfl, hcv⟩ | ⟨hover, -⟩ := nearest_cases a hv
  · obtain ⟨-, d, hd, rfl, hdw⟩ | ⟨hover, -⟩ := nearest_cases b hw
    · rw [of_mul (hx.trans hc) (hy.trans hd), hcv, hdw]
    · exact absurd hwlt (not_lt.mpr hover)
  · exact absurd hvlt (not_lt.mpr hover)

/-! ## Exact doubles -/

/-- A number of at most fifty-three places is the value of its double. -/
theorem Reading.nearest_exact (negative : Bool) (hm : m < 2 ^ 53) (he : -1074 ≤ e)
    (hlt : (m * 2 ^ e : ℚ) < 2 ^ (1024 : ℤ)) :
    ∃ b, nearest negative (m * 2 ^ e) = .finite b ∧ b.negative = negative ∧
      b.magnitude = m * 2 ^ e := by
  have hv : (0 : ℚ) ≤ m * 2 ^ e := mul_nonneg (Nat.cast_nonneg _) (two_zpow_pos _).le
  have hexact := rounded_of_exact hm he
  have hbelow : (m * 2 ^ e : ℚ) < overflow :=
    (rounded_lt_iff_overflow hv).mp (hexact.trans_lt hlt)
  obtain ⟨-, b, hb, hnegative, hmagnitude⟩ | ⟨hover, -⟩ := nearest_cases negative hv
  · exact ⟨b, hb, hnegative, hmagnitude.trans hexact⟩
  · exact absurd hbelow (not_lt.mpr hover)

theorem exists_of_toFloat (hm : m < 2 ^ 53) :
    ∃ b, Reading.of m.toUInt64.toFloat = .finite b ∧ b.negative = false ∧ b.magnitude = m := by
  have hnat : m.toUInt64.toNat = m := by
    simp
    omega
  have hlt : (m * 2 ^ (0 : ℤ) : ℚ) < 2 ^ (1024 : ℤ) := by
    calc (m * 2 ^ (0 : ℤ) : ℚ) < 2 ^ (53 : ℤ) := by
          rw [zpow_zero, mul_one]
          exact_mod_cast hm
      _ ≤ 2 ^ (1024 : ℤ) := two_zpow_le_iff.mpr (by norm_num)
  have hexact := Reading.nearest_exact false hm (by norm_num) hlt
  rw [zpow_zero, mul_one] at hexact
  rwa [Reading.of_toFloat, hnat]

theorem of_powerOfTen (i : Fin 23) :
    Reading.of Float.exactlyRepresentablePowersOfTen[i] =
        .finite ⟨false, 10 ^ i.val * 2 ^ 52 / 2 ^ (10 ^ i.val).log2, (10 ^ i.val).log2 - 52⟩ ∧
      2 ^ (10 ^ i.val).log2 ∣ 10 ^ i.val * 2 ^ 52 := by
  revert i
  decide +kernel

theorem exists_of_powerOfTen (hm : m < 23) :
    ∃ b, Reading.of Float.exactlyRepresentablePowersOfTen[m] = .finite b ∧ b.negative = false ∧
      b.magnitude = 10 ^ m := by
  obtain ⟨hread, k, hk⟩ := of_powerOfTen ⟨m, hm⟩
  refine ⟨_, hread, rfl, ?_⟩
  dsimp only at hk
  have hcast : (10 ^ m * 2 ^ 52 : ℚ) = 2 ^ (10 ^ m).log2 * k := by exact_mod_cast hk
  rw [Binary.magnitude, hk, Nat.mul_div_cancel_left _ (Nat.two_pow_pos _), sub_eq_add_neg,
    two_zpow_add, zpow_natCast, ← mul_assoc, mul_comm (k : ℚ), ← hcast, mul_assoc]
  norm_num

/-! ## Scientific notation -/

/-- Scaling up is one multiplication, of a significand that has all of its digits. -/
theorem ofUnpacked_mul_ten (hm : 0 < m) (k : ℕ) (hshift : 0 < m <<< 53) (hten : 0 < 10 ^ k) :
    Reading.ofUnpacked (Float.Model.pack (UnpackedFloat.mul Format.binary64
      (.finite .positive (m <<< 53) (-53) hshift) (.finite .positive (10 ^ k) 0 hten))).unpack =
        .nearest false (m * 10 ^ (k : ℤ)) := by
  have hfull : 2 ^ 52 ≤ m <<< 53 * 10 ^ k := by
    rw [Nat.shiftLeft_eq]
    calc 2 ^ 52 ≤ 1 * 2 ^ 53 * 1 := by norm_num
      _ ≤ m * 2 ^ 53 * 10 ^ k := Nat.mul_le_mul (Nat.mul_le_mul_right _ hm) hten
  have hexact : ((m <<< 53 : ℕ) * 2 ^ (-53 : ℤ) * ((10 ^ k : ℕ) * 2 ^ (0 : ℤ)) : ℚ) =
      m * 10 ^ (k : ℤ) := by
    rw [show (-53 : ℤ) = -(53 : ℕ) from rfl, Nat.shiftLeft_eq, zpow_zero, mul_one, zpow_neg,
      zpow_natCast, zpow_natCast, Nat.cast_mul, Nat.cast_pow, Nat.cast_pow, Nat.cast_ofNat,
      Nat.cast_ofNat, mul_inv_cancel_right₀ (pow_ne_zero 53 two_ne_zero)]
  rw [← hexact]
  exact ofUnpacked_mul _ _ _ _ (.inl (log_le_of_le hfull))

/-- Scaling down is one division. -/
theorem ofUnpacked_div_ten (hm : 0 < m) (k : ℕ) (hten : 0 < 10 ^ k) :
    Reading.ofUnpacked (Float.Model.pack (UnpackedFloat.div Format.binary64
      (.finite .positive m 0 hm) (.finite .positive (10 ^ k) 0 hten))).unpack =
        .nearest false (m * 10 ^ (-k : ℤ)) := by
  have hexact : (m * 2 ^ (0 : ℤ) / ((10 ^ k : ℕ) * 2 ^ (0 : ℤ)) : ℚ) = m * 10 ^ (-k : ℤ) := by
    rw [zpow_zero, mul_one, mul_one, zpow_neg, zpow_natCast, div_eq_mul_inv, Nat.cast_pow,
      Nat.cast_ofNat]
  rw [← hexact]
  exact ofUnpacked_div _ _ _ _

theorem ofUnpacked_ofScientific (m : ℕ) (e : ℤ) :
    Reading.ofUnpacked (Float.Model.ofScientific m e).unpack = .nearest false (m * 10 ^ e) := by
  unfold Float.Model.ofScientific UnpackedFloat.ofScientific
  split
  · next hzero =>
    rw [ofUnpacked_pack_zero, hzero, Nat.cast_zero, zero_mul, Reading.nearest_zero]
    rfl
  · next hm =>
    have hone : (1 : ℚ) ≤ m := by exact_mod_cast Nat.pos_of_ne_zero hm
    split
    · next hgreat =>
      have hover : overflow ≤ m * 10 ^ e :=
        (overflow_le_ten_zpow (by norm_num at hgreat; omega)).trans
          (le_mul_of_one_le_left (ten_zpow_pos e).le hone)
      rw [ofUnpacked_pack_infinity, Reading.nearest_of_overflow false hover]
      rfl
    · split
      · next hsmall =>
        norm_num at hsmall
        have htiny := mul_ten_zpow_lt (m := m) (e := e) (by omega) (by omega)
        rw [ofUnpacked_pack_zero, Reading.nearest_of_tiny false htiny]
        rfl
      · split
        · next hpos =>
          obtain ⟨k, rfl⟩ := Int.eq_ofNat_of_zero_le hpos
          exact ofUnpacked_mul_ten (Nat.pos_of_ne_zero hm) k _ _
        · next hneg =>
          obtain ⟨k, rfl⟩ : ∃ k : ℕ, e = -k := ⟨(-e).toNat, by omega⟩
          simp only [neg_neg, Int.toNat_natCast]
          exact ofUnpacked_div_ten (Nat.pos_of_ne_zero hm) k _

/-- The power of ten that a sign and an exponent make. -/
def signed (negative : Bool) (e : ℕ) : ℤ := if negative then -(e : ℤ) else e

/-- Scientific notation is the nearest double to what it says, also where it is computed by one
operation on exact doubles. -/
theorem of_ofScientific (m : ℕ) (negative : Bool) (e : ℕ) :
    Reading.of (Float.ofScientific m negative e) = .nearest false (m * 10 ^ signed negative e) := by
  unfold Float.ofScientific
  split
  · next hexact =>
    obtain ⟨a, ha, hsigna, hma⟩ := exists_of_toFloat hexact.1
    obtain ⟨b, hb, hsignb, hmb⟩ := exists_of_powerOfTen (m := e) (by omega)
    cases negative with
    | true =>
      have hne : b.significand ≠ 0 := by
        intro hzero
        rw [Binary.magnitude, hzero, Nat.cast_zero, zero_mul] at hmb
        exact (pow_pos (by norm_num : (0 : ℚ) < 10) e).ne hmb
      have hdiv := Reading.of_div ha hb hne
      rw [hsigna, hsignb, hma, hmb] at hdiv
      rw [if_pos rfl, signed, if_pos rfl, zpow_neg, zpow_natCast, ← div_eq_mul_inv]
      exact hdiv
    | false =>
      have hmul := Reading.of_mul ha hb
      rw [hsigna, hsignb, hma, hmb] at hmul
      rw [if_neg (by decide), signed, if_neg (by decide), zpow_natCast]
      exact hmul
  · have hmodel : (if negative then Int.negOfNat e else Int.ofNat e) = signed negative e := by
      cases negative
      · rfl
      · exact Int.negOfNat_eq
    rw [hmodel]
    exact (Reading.of_eq _).trans (ofUnpacked_ofScientific m _)

/-! ## Literals -/

theorem digitCount_pos (hn : 0 < n) : 0 < digitCount n := by
  rw [digitCount, if_neg hn.ne']
  exact Nat.length_toDigits_pos

theorem digitCount_le_iff (hn : 0 < n) (hm : 0 < m) : digitCount n ≤ m ↔ n < 10 ^ m := by
  rw [digitCount, if_neg hn.ne']
  exact Nat.length_toDigits_le_iff (by norm_num) hm

/-- A number lies below the power of ten of its digits, and not below the one before. -/
theorem digitCount_spec (hn : 0 < n) :
    (10 : ℚ) ^ ((digitCount n : ℤ) - 1) ≤ n ∧ (n : ℚ) < 10 ^ (digitCount n : ℤ) := by
  have hpos := digitCount_pos hn
  constructor
  · rcases Nat.eq_or_lt_of_le hpos with hone | hmore
    · rw [← hone]
      have : (1 : ℚ) ≤ n := by exact_mod_cast hn
      simpa using this
    · have hnot : ¬n < 10 ^ (digitCount n - 1) := by
        rw [← digitCount_le_iff hn (by omega)]
        omega
      rw [show (digitCount n : ℤ) - 1 = ((digitCount n - 1 : ℕ) : ℤ) by omega]
      exact_mod_cast not_lt.mp hnot
  · exact_mod_cast (digitCount_le_iff hn hpos).mp le_rfl

/-- The cut-offs of literals that are far out of range change nothing. -/
theorem of_nearest (n : ℕ) (e : ℤ) :
    Reading.of (nearest n e) = .nearest false (n * 10 ^ e) := by
  have hzero : Reading.of 0 = .finite ⟨false, 0, -1074⟩ := by decide +kernel
  have hinfinite : Reading.of (Float.ofBits 0x7FF0000000000000) = .infinite false := by
    decide +kernel
  unfold nearest
  dsimp only
  rcases Nat.eq_zero_or_pos n with rfl | hn
  · rw [if_pos (.inl rfl), hzero, Nat.cast_zero, zero_mul, Reading.nearest_zero]
  obtain ⟨hlow, hhigh⟩ := digitCount_spec hn
  split
  · next hsmall =>
    have hsmall := hsmall.resolve_left hn.ne'
    have htiny : (n * 10 ^ e : ℚ) < 2 ^ (-1075 : ℤ) := by
      calc (n * 10 ^ e : ℚ) < 10 ^ (digitCount n : ℤ) * 10 ^ e :=
            mul_lt_mul_of_pos_right hhigh (ten_zpow_pos e)
        _ = 10 ^ (digitCount n + e) := (zpow_add₀ (by norm_num) _ _).symm
        _ ≤ 2 ^ (3 * (digitCount n + e)) := ten_zpow_le (by omega)
        _ ≤ 2 ^ (-1075 : ℤ) := two_zpow_le_iff.mpr (by omega)
    rw [hzero, Reading.nearest_of_tiny false htiny]
  · split
    · next hgreat =>
      have hover : overflow ≤ n * 10 ^ e := by
        calc overflow ≤ 10 ^ (digitCount n - 1 + e) := overflow_le_ten_zpow (by omega)
          _ = 10 ^ ((digitCount n : ℤ) - 1) * 10 ^ e := zpow_add₀ (by norm_num) _ _
          _ ≤ n * 10 ^ e := mul_le_mul_of_nonneg_right hlow (ten_zpow_pos e).le
      rw [hinfinite, Reading.nearest_of_overflow false hover]
    · have hsigned : signed (decide (e < 0)) e.natAbs = e := by
        unfold signed
        split
        · next hneg =>
          have := of_decide_eq_true hneg
          omega
        · next hpos =>
          have := of_decide_eq_false (Bool.eq_false_iff.mpr hpos)
          omega
      rw [of_ofScientific, hsigned]

namespace Literal

/-- The exact number of a literal without its sign. -/
theorem abs_value (l : Literal) : |l.value| = l.digits * 10 ^ l.exponent := by
  have hpos : (0 : ℚ) ≤ l.digits * 10 ^ l.exponent :=
    mul_nonneg (Nat.cast_nonneg _) (ten_zpow_pos _).le
  unfold value
  cases l.negative <;> simp [abs_of_nonneg hpos]

theorem of_toFloat (l : Literal) : Reading.of l.toFloat = .nearest l.negative |l.value| := by
  rw [abs_value]
  unfold toFloat
  dsimp only
  split
  · next hminus =>
    rw [Reading.of_neg, of_nearest, Reading.neg_nearest, hminus]
    rfl
  · next hplus => rw [of_nearest, Bool.eq_false_iff.mpr hplus]

/-- A literal denotes a finite double exactly if its number lies below the overflow. -/
theorem isFinite_iff (l : Literal) : isFinite l.toFloat = true ↔ |l.value| < overflow :=
  isFinite_iff_of_nearest l.of_toFloat (abs_nonneg _)

end Literal

end KubeLedger.Decimal
