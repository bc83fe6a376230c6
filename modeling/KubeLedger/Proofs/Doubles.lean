import Mathlib
import KubeLedger.Proofs.Rounding

/- What the arithmetic of doubles computes: products and quotients of finite doubles are the exact ones,
   rounded (`Reading.of_mul`, `Reading.of_div`). The significand of an exact result is shifted right to
   its last place, and two bits keep what falls off: whether the next half was there, and whether
   anything was below it. Both bits tell enough of the exact result to round it (`StandsFor`). -/
namespace KubeLedger.Decimal

open Float.Model Float.Model.UnpackedFloat

variable {q v : ℚ} {m : ℕ} {e : ℤ} {s : Sign} {em : ExtendedMantissa} {accuracy : Accuracy}

/-! ## Discarded bits -/

/-- How many halves a significand and the bit behind it are. -/
def halves (em : ExtendedMantissa) : ℕ := 2 * em.mantissa + em.roundBit.toNat

/-- A significand with the bits behind it stands for an exact number: it has all of its halves, and the
sticky bit says whether there is more. -/
structure StandsFor (em : ExtendedMantissa) (q : ℚ) : Prop where
  low : (halves em : ℚ) ≤ 2 * q
  high : 2 * q < halves em + 1
  sticky : em.stickyBit = true ↔ (halves em : ℚ) < 2 * q

theorem halves_bounds (em : ExtendedMantissa) :
    2 * em.mantissa ≤ halves em ∧ halves em ≤ 2 * em.mantissa + 1 := by
  have := em.roundBit.toNat_le
  unfold halves
  omega

theorem halves_shiftRightOne (em : ExtendedMantissa) : halves em.shiftRightOne = em.mantissa := by
  rcases Nat.mod_two_eq_zero_or_one em.mantissa with h | h <;>
    simp [halves, ExtendedMantissa.shiftRightOne, h] <;> omega

namespace StandsFor

theorem mantissa_le (h : StandsFor em q) : (em.mantissa : ℚ) ≤ q := by
  have hcast : (2 * em.mantissa : ℚ) ≤ halves em := by exact_mod_cast (halves_bounds em).1
  linarith [h.low]

theorem lt_succ (h : StandsFor em q) : q < em.mantissa + 1 := by
  have hcast : (halves em : ℚ) ≤ 2 * em.mantissa + 1 := by exact_mod_cast (halves_bounds em).2
  linarith [h.high]

theorem exact (m : ℕ) : StandsFor (.ofMantissaAndAccuracy m .exact) m := by
  constructor <;> simp [halves, ExtendedMantissa.ofMantissaAndAccuracy]

theorem shiftRightOne (h : StandsFor em q) : StandsFor em.shiftRightOne (q / 2) := by
  have hq : 2 * (q / 2) = q := by ring
  refine ⟨?_, ?_, ?_⟩
  · rw [hq, halves_shiftRightOne]
    exact h.mantissa_le
  · rw [hq, halves_shiftRightOne]
    exact h.lt_succ
  · rw [hq, halves_shiftRightOne]
    have hbits : em.shiftRightOne.stickyBit = (em.roundBit || em.stickyBit) := rfl
    have hlow := h.low
    have hsticky := h.sticky
    rw [hbits, Bool.or_eq_true, hsticky]
    -- a half that falls off is more than nothing
    cases hround : em.roundBit with
    | true =>
      simp only [halves, hround, Bool.toNat_true, Nat.cast_add, Nat.cast_mul, Nat.cast_ofNat,
        Nat.cast_one] at hlow
      simp only [true_or, true_iff]
      linarith
    | false =>
      simp [halves, hround]

theorem shiftRight (h : StandsFor em q) (k : ℕ) : StandsFor (em >>> k) (q / 2 ^ k) := by
  induction k with
  | zero => simpa [HShiftRight.hShiftRight, Nat.repeat] using h
  | succ k ih =>
    rw [pow_succ, ← div_div]
    exact ih.shiftRightOne

/-- A part of a unit, told by where it lies to the half. -/
theorem inexact {r : ℚ} {o : Ordering} (hpos : 0 < r) (hlt : r < 1)
    (ho : o = .lt ∧ 2 * r < 1 ∨ o = .eq ∧ 2 * r = 1 ∨ o = .gt ∧ 1 < 2 * r) :
    StandsFor (.ofMantissaAndAccuracy m (.inexact o)) (m + r) := by
  obtain ⟨rfl, ho⟩ | ⟨rfl, ho⟩ | ⟨rfl, ho⟩ := ho
  all_goals
    constructor <;>
      simp only [halves, ExtendedMantissa.ofMantissaAndAccuracy, Bool.toNat_false, Bool.toNat_true,
        Bool.false_eq_true, false_iff, true_iff, not_lt] <;>
      push_cast <;> linarith

/-- A quotient of whole numbers, told by its remainder. -/
theorem fraction {num den : ℕ} (hden : 0 < den) :
    StandsFor (.ofMantissaAndAccuracy (num / den) (accuracyOfFraction (num % den) den))
      (num / den : ℚ) := by
  have hpos : (0 : ℚ) < den := by exact_mod_cast hden
  have hsplit : (num / den : ℚ) = (num / den : ℕ) + (num % den : ℕ) / den := by
    rw [eq_comm, ← eq_sub_iff_add_eq', div_eq_iff hpos.ne', sub_mul, div_mul_cancel₀ _ hpos.ne',
      eq_sub_iff_add_eq', mul_comm]
    exact_mod_cast Nat.div_add_mod num den
  unfold accuracyOfFraction
  rw [hsplit]
  split
  · next hzero =>
    rw [hzero, Nat.cast_zero, zero_div, add_zero]
    exact .exact _
  · next hzero =>
    refine .inexact (div_pos (by exact_mod_cast Nat.pos_of_ne_zero hzero) hpos) ?_ ?_
    · rw [div_lt_one hpos]
      exact_mod_cast Nat.mod_lt _ hden
    · rw [← mul_div_assoc, div_lt_one hpos, div_eq_one_iff_eq hpos.ne', one_lt_div hpos]
      norm_cast
      rcases lt_trichotomy (2 * (num % den)) den with h | h | h
      · exact .inl ⟨Nat.compare_eq_lt.mpr h, h⟩
      · exact .inr (.inl ⟨Nat.compare_eq_eq.mpr h, h⟩)
      · exact .inr (.inr ⟨Nat.compare_eq_gt.mpr h, h⟩)

/-- The bits tell how the number is rounded. -/
theorem roundedMantissa (h : StandsFor em q) : em.roundedMantissa = nearestEven q := by
  have hfloor : ⌊q⌋₊ = em.mantissa := by
    rw [Nat.floor_eq_iff ((Nat.cast_nonneg _).trans h.mantissa_le)]
    exact ⟨h.mantissa_le, h.lt_succ⟩
  obtain ⟨hlow, hhigh, hsticky⟩ := h
  obtain ⟨m, round, sticky⟩ := em
  simp only [nearestEven, hfloor, ExtendedMantissa.roundedMantissa, halves] at *
  cases round <;> cases sticky <;>
    simp only [ExtendedMantissa.accuracy, Accuracy.roundToNearestEven, Bool.toNat_false,
      Bool.toNat_true, Bool.false_eq_true, false_iff, true_iff, not_lt] at * <;>
    push_cast at *
  · rw [if_pos (by linarith)]
  · rw [if_pos (by linarith)]
  · rw [if_neg (by linarith), if_pos (by linarith)]
  · rw [if_neg (by linarith), if_neg (by linarith)]

end StandsFor

/-! ## Shifting to the last place -/

/-- The exponent that a significand is shifted to. -/
theorem targetExponent_eq (total : ℤ) :
    Format.binary64.targetExponent total = max (total - 53) (-1074) := by
  simp [Format.targetExponent, Format.mantissaBits, Format.minExponent]

/-- A significand that is long enough, or low enough, ends below the last place of its number. -/
theorem place_eq_target (h : StandsFor (.ofMantissaAndAccuracy m accuracy) (v / 2 ^ e))
    (hfit : 52 ≤ m.log2 ∨ e ≤ -1074) :
    place v = max (m.log2 + e - 52) (-1074) := by
  have hmantissa : (ExtendedMantissa.ofMantissaAndAccuracy m accuracy).mantissa = m := by
    rcases accuracy with - | (_ | _ | _) <;> rfl
  have hlow := h.mantissa_le
  have hhigh := h.lt_succ
  rw [hmantissa, le_div_iff₀ (two_zpow_pos e)] at hlow
  rw [hmantissa, div_lt_iff₀ (two_zpow_pos e)] at hhigh
  refine place_eq (le_max_right _ _) ?_ ?_
  · have hsucc : (m : ℚ) + 1 ≤ 2 ^ ((m.log2 : ℤ) + 1) := by
      exact_mod_cast Nat.lt_log2_self (n := m)
    calc v < (m + 1) * 2 ^ e := hhigh
      _ ≤ 2 ^ ((m.log2 : ℤ) + 1) * 2 ^ e := mul_le_mul_of_nonneg_right hsucc (two_zpow_pos e).le
      _ = 2 ^ ((m.log2 : ℤ) + 1 + e) := (two_zpow_add _ _).symm
      _ ≤ 2 ^ (max (m.log2 + e - 52) (-1074) + 53) := two_zpow_le_iff.mpr (by omega)
  · rcases le_or_gt ((m.log2 : ℤ) + e - 52) (-1074) with hle | hgt
    · exact .inr (max_eq_right hle)
    · refine .inl ?_
      have hself : (2 : ℚ) ^ (m.log2 : ℤ) ≤ m := by
        have hne : m ≠ 0 := by
          rintro rfl
          simp only [Nat.log2_zero] at hfit hgt
          omega
        exact_mod_cast Nat.log2_self_le hne
      calc (2 : ℚ) ^ (max (m.log2 + e - 52) (-1074) + 52) = 2 ^ ((m.log2 : ℤ) + e) := by
            rw [max_eq_left hgt.le, sub_add_cancel]
        _ = 2 ^ (m.log2 : ℤ) * 2 ^ e := two_zpow_add _ _
        _ ≤ m * 2 ^ e := mul_le_mul_of_nonneg_right hself (two_zpow_pos e).le
        _ ≤ v := hlow

/-- A significand that is short enough for its exponent stays as it is. -/
theorem shift_short (hm : m < 2 ^ 53) (he : -1074 ≤ e) :
    shiftToTargetExponent Format.binary64 m e .exact = (⟨m, false, false⟩, e) := by
  have hlog : m.log2 ≤ 52 := by
    rcases eq_or_ne m 0 with rfl | hne
    · simp
    · exact Nat.lt_succ_iff.mp ((Nat.log2_lt hne).mpr hm)
  have hshift : (max (totalExponent m e - 53) (-1074) - e).toNat = 0 := by
    unfold totalExponent
    omega
  simp [shiftToTargetExponent, targetExponent_eq, shiftToExponent, hshift,
    HShiftRight.hShiftRight, Nat.repeat, ExtendedMantissa.ofMantissaAndAccuracy]

/-- A significand that was rounded up to one digit more loses the last one. -/
theorem shift_carry (he : -1074 ≤ e) :
    shiftToTargetExponent Format.binary64 (2 ^ 53) e .exact = (⟨2 ^ 52, false, false⟩, e + 1) := by
  have htarget : Format.binary64.targetExponent (totalExponent (2 ^ 53) e) = e + 1 := by
    rw [targetExponent_eq, totalExponent, Nat.log2_two_pow]
    omega
  have hshift : (e + 1 - e).toNat = 1 := by omega
  simp only [shiftToTargetExponent, htarget, shiftToExponent, hshift]
  rfl

theorem roundWithAccuracy_eq (s : Sign)
    (h : StandsFor (.ofMantissaAndAccuracy m accuracy) (v / 2 ^ e))
    (hfit : 52 ≤ m.log2 ∨ e ≤ -1074) :
    roundWithAccuracy Format.binary64 s m e accuracy =
      if hzero : significand v = 0 then .zero s
      else if significand v < 2 ^ 53 then
        .finite s (significand v) (place v) (Nat.pos_of_ne_zero hzero)
      else .finite s (2 ^ 52) (place v + 1) (Nat.two_pow_pos 52) := by
  have hplace := place_eq_target h hfit
  obtain ⟨k, hk⟩ : ∃ k : ℕ, place v = e + k := by
    obtain ⟨k, hk⟩ := Int.le.dest (show e ≤ place v by omega)
    exact ⟨k, hk.symm⟩
  have hfirst : shiftToTargetExponent Format.binary64 m e accuracy =
      (ExtendedMantissa.ofMantissaAndAccuracy m accuracy >>> k, place v) := by
    have hshift : (max (totalExponent m e - 53) (-1074) - e).toNat = k := by
      unfold totalExponent
      omega
    simp only [shiftToTargetExponent, targetExponent_eq, shiftToExponent, hshift, hk]
  have hrounded : (ExtendedMantissa.ofMantissaAndAccuracy m accuracy >>> k).roundedMantissa =
      significand v := by
    rw [(h.shiftRight k).roundedMantissa, significand, hk, two_zpow_add, zpow_natCast, div_div]
  obtain ⟨hmin, -, -⟩ := place_spec v
  simp only [roundWithAccuracy, hfirst, hrounded]
  rcases (significand_le v).lt_or_eq with hlt | hfull
  · simp only [shift_short hlt hmin, hlt, if_true]
  · simp only [hfull, shift_carry hmin]
    simp

/-! ## Fields -/

def isMinus : Sign → Bool
  | .negative => true
  | .positive => false

/-- What a double stands for, once its fields are told apart. -/
def Reading.ofUnpacked : UnpackedFloat → Reading
  | .infinity s => .infinite (isMinus s)
  | .notANumber => .nan
  | .zero s => .finite ⟨isMinus s, 0, -1074⟩
  | .finite s m e _ => .finite ⟨isMinus s, m, e⟩

section Fields
variable (b : BitVec 64)

theorem unpackExponent_toNat :
    (@unpackExponent Format.binary64 b).toNat = (b.toNat >>> 52) % 2048 := by
  simp [unpackExponent, BitVec.extractLsb_toNat]

theorem unpackMantissa_toNat :
    (@unpackMantissa Format.binary64 b).toNat = b.toNat % 2 ^ 52 := by
  simp [unpackMantissa, BitVec.extractLsb_toNat]

theorem unpackSign_toNat :
    (@unpackSign Format.binary64 b).toNat = b.toNat >>> 63 := by
  have hlt : b.toNat < 2 ^ 64 := b.isLt
  simp only [unpackSign, BitVec.toNat_cast, BitVec.extractLsb_toNat]
  norm_num [Nat.shiftRight_eq_div_pow]
  omega

theorem isMinus_ofBitVec (w : BitVec 1) : isMinus (Sign.ofBitVec w) = (w.toNat == 1) := by
  revert w
  decide

theorem toNat_withLeadingBit (w : BitVec 52) : (1#1 ++ w).toNat = 2 ^ 52 + w.toNat := by
  rw [BitVec.toNat_append, ← Nat.shiftLeft_add_eq_or_of_lt w.isLt]
  rfl

/-- The fields of a double are read as they are told apart. -/
theorem ofBits_eq (b : UInt64) :
    Reading.ofBits b = .ofUnpacked (UnpackedFloat.unpack Format.binary64 b.toBitVec) := by
  have hsign : isMinus (Sign.ofBitVec (@unpackSign Format.binary64 b.toBitVec)) =
      (b.toNat >>> 63 == 1) := by
    rw [isMinus_ofBitVec, unpackSign_toNat]
    rfl
  have hfield : (b.toNat >>> 52) % 0x800 =
      (@unpackExponent Format.binary64 b.toBitVec).toNat :=
    (unpackExponent_toNat b.toBitVec).symm
  have hfraction : b.toNat % 0x10000000000000 =
      (@unpackMantissa Format.binary64 b.toBitVec).toNat :=
    (unpackMantissa_toNat b.toBitVec).symm
  simp only [Reading.ofBits, hfield, hfraction, ← hsign]
  unfold UnpackedFloat.unpack
  dsimp only
  split
  · next hfull =>
    rw [if_pos (BitVec.eq_of_toNat_eq hfull)]
    split
    · next hempty =>
      rw [if_pos (BitVec.eq_of_toNat_eq hempty)]
      rfl
    · next hsome =>
      rw [if_neg fun h => hsome (congrArg BitVec.toNat h)]
      rfl
  · next hfinite =>
    rw [if_neg fun h => hfinite (congrArg BitVec.toNat h)]
    split
    · next hlow =>
      rw [if_pos (BitVec.eq_of_toNat_eq hlow)]
      split
      · next hempty => simp [Reading.ofUnpacked, hempty]
      · next hsome => simp [Reading.ofUnpacked, hlow, Format.exponentBias]
    · next hnormal =>
      rw [if_neg fun h => hnormal (congrArg BitVec.toNat h)]
      simp [Reading.ofUnpacked, Format.exponentBias, toNat_withLeadingBit]

end Fields

/-- What a double stands for is what its unpacked form stands for. -/
theorem Reading.of_eq (x : Float) : Reading.of x = .ofUnpacked x.toModel.unpack :=
  ofBits_eq x.toBits

/-! ## Packing -/

/-- A significand and an exponent as a double has them: all fifty-three digits, or the lowest place. -/
structure IsCanonical (m : ℕ) (e : ℤ) : Prop where
  lt : m < 2 ^ 53
  low : -1074 ≤ e
  full : 2 ^ 52 ≤ m ∨ e = -1074

/-- The field of an exponent is neither full nor empty unless its number is. -/
theorem ofNat_ne_field {k : ℕ} (hlow : 1 ≤ k) (hhigh : k ≤ 2046) :
    BitVec.ofNat 11 k ≠ -1#11 ∧ BitVec.ofNat 11 k ≠ 0#11 := by
  have hk : (BitVec.ofNat 11 k).toNat = k := by
    rw [BitVec.toNat_ofNat]
    omega
  constructor <;> intro h <;> rw [h] at hk <;> simp at hk <;> omega

/-- What is packed is unpacked as it was, unless its exponent is too great. -/
theorem unpack_pack (h : IsCanonical m e) (hpos : 0 < m) (s : Sign) :
    (Float.Model.pack (.finite s m e hpos)).unpack =
      if 972 ≤ e then .infinity s else .finite s m e hpos := by
  obtain ⟨hlt, hlow, hfull⟩ := h
  have hlog : m.log2 + 1 = Format.binary64.mantissaBits ↔ 2 ^ 52 ≤ m := by
    rw [Nat.le_log2 hpos.ne' |>.symm]
    have := (Nat.log2_lt hpos.ne').mpr hlt
    show m.log2 + 1 = 53 ↔ _
    omega
  have hbias : (e + Format.binary64.exponentBias + (52 : ℕ)).toNat = (e + 1075).toNat := by
    simp [Format.exponentBias]
    omega
  have hgreat : 2 ^ 11 ≤ (e + 1075).toNat + 1 ↔ 972 ≤ e := by
    omega
  show UnpackedFloat.unpack Format.binary64 (UnpackedFloat.pack Format.binary64 _) = _
  simp only [UnpackedFloat.pack, hbias, hlog, hgreat]
  by_cases hgreat : 972 ≤ e
  · simp [hgreat, UnpackedFloat.unpack, packedInfinity]
  rw [if_neg hgreat, if_neg hgreat]
  by_cases hnormal : 2 ^ 52 ≤ m
  · obtain ⟨hnotFull, hnotEmpty⟩ := ofNat_ne_field (k := (e + 1075).toNat) (by omega) (by omega)
    have hmantissa : (1#1 ++ BitVec.ofNat 52 m).toNat = m := by
      rw [toNat_withLeadingBit, BitVec.toNat_ofNat]
      omega
    have hexponent : ((BitVec.ofNat 11 (e + 1075).toNat).toNat : ℤ) -
        (Format.binary64.exponentBias + (52 : ℕ)) = e := by
      rw [BitVec.toNat_ofNat]
      simp [Format.exponentBias]
      omega
    rw [if_pos hnormal]
    simp only [UnpackedFloat.unpack, unpackExponent_packComponents, unpackMantissa_packComponents,
      unpackSign_packComponents, Sign.ofBitVec_toBitVec, hnotFull, hnotEmpty, if_false, hmantissa,
      hexponent]
  · obtain rfl : e = -1074 := hfull.resolve_left hnormal
    have hmantissa : (BitVec.ofNat 52 m).toNat = m := by
      rw [BitVec.toNat_ofNat]
      omega
    have hsome : BitVec.ofNat 52 m ≠ 0#52 := by
      intro h
      rw [h] at hmantissa
      simp at hmantissa
      omega
    rw [if_neg hnormal]
    simp [UnpackedFloat.unpack, hmantissa, hsome, Format.exponentBias]

theorem Reading.isCanonical {x : Float} {b : Binary} (h : Reading.of x = .finite b) :
    IsCanonical b.significand b.exponent ∧ b.exponent ≤ 971 := by
  unfold Reading.of Reading.ofBits at h
  dsimp only at h
  split at h
  · split at h <;> cases h
  · split at h
    · cases h
      exact ⟨⟨by dsimp only; omega, le_rfl, .inr rfl⟩, by norm_num⟩
    · cases h
      refine ⟨⟨?_, ?_, .inl ?_⟩, ?_⟩ <;> dsimp only <;> omega

/-- Doubles of a significand and an exponent begin to be too great at the same power of two. -/
theorem IsCanonical.great_iff (h : IsCanonical m e) :
    (2 : ℚ) ^ (1024 : ℤ) ≤ m * 2 ^ e ↔ 972 ≤ e := by
  obtain ⟨hlt, hlow, hfull⟩ := h
  constructor
  · intro hgreat
    have hm : (m : ℚ) < 2 ^ (53 : ℤ) := by exact_mod_cast hlt
    have hexponent : (2 : ℚ) ^ (1024 : ℤ) < 2 ^ (53 + e) := by
      rw [two_zpow_add]
      exact hgreat.trans_lt (mul_lt_mul_of_pos_right hm (two_zpow_pos e))
    have := two_zpow_lt_iff.mp hexponent
    omega
  · intro hgreat
    have hm : (2 : ℚ) ^ (52 : ℤ) ≤ m := by exact_mod_cast hfull.resolve_right (by omega)
    calc (2 : ℚ) ^ (1024 : ℤ) ≤ 2 ^ (52 + e) := two_zpow_le_iff.mpr (by omega)
      _ = 2 ^ (52 : ℤ) * 2 ^ e := two_zpow_add _ _
      _ ≤ m * 2 ^ e := mul_le_mul_of_nonneg_right hm (two_zpow_pos e).le

theorem ofUnpacked_pack (h : IsCanonical m e) (hpos : 0 < m) (s : Sign) :
    Reading.ofUnpacked (Float.Model.pack (.finite s m e hpos)).unpack =
      if (2 : ℚ) ^ (1024 : ℤ) ≤ m * 2 ^ e then .infinite (isMinus s)
      else .finite ⟨isMinus s, m, e⟩ := by
  rw [unpack_pack h hpos]
  simp only [h.great_iff]
  split <;> rfl

theorem ofUnpacked_pack_zero (s : Sign) :
    Reading.ofUnpacked (Float.Model.pack (.zero s)).unpack = .finite ⟨isMinus s, 0, -1074⟩ := by
  cases s <;> decide +kernel

theorem ofUnpacked_pack_infinity (s : Sign) :
    Reading.ofUnpacked (Float.Model.pack (.infinity s)).unpack = .infinite (isMinus s) := by
  cases s <;> decide +kernel

/-- The nearest double to zero is zero. -/
theorem Reading.nearest_zero (negative : Bool) :
    nearest negative 0 = .finite ⟨negative, 0, -1074⟩ := by
  have hplace : place 0 = -1074 := place_eq le_rfl (two_zpow_pos _) (.inr rfl)
  have hsignificand : significand 0 = 0 := by
    rw [significand, zero_div]
    exact nearestEven_natCast 0
  simp [nearest, rounded, hplace, hsignificand]

theorem ofUnpacked_round (s : Sign)
    (h : StandsFor (.ofMantissaAndAccuracy m accuracy) (v / 2 ^ e))
    (hfit : 52 ≤ m.log2 ∨ e ≤ -1074) :
    Reading.ofUnpacked
      (Float.Model.pack (roundWithAccuracy Format.binary64 s m e accuracy)).unpack =
        .nearest (isMinus s) v := by
  obtain ⟨hmin, -, hlow⟩ := place_spec v
  have hfull : 2 ^ 52 ≤ significand v ∨ place v = -1074 := hlow.imp_left le_significand
  rw [roundWithAccuracy_eq s h hfit]
  split
  · next hzero =>
    have hplace : place v = -1074 := hfull.resolve_left (by omega)
    rw [ofUnpacked_pack_zero]
    simp [Reading.nearest, rounded, hzero, hplace]
  · next hzero =>
    split
    · next hlt =>
      rw [ofUnpacked_pack ⟨hlt, hmin, hfull⟩]
      simp only [Reading.nearest, rounded, hlt, if_true]
    · next hcarry =>
      rw [ofUnpacked_pack ⟨by norm_num, by omega, .inl le_rfl⟩, ← rounded_of_carry (not_lt.mp hcarry)]
      simp only [Reading.nearest, hcarry, if_false]

/-! ## Arithmetic -/

theorem isMinus_mul (s t : Sign) : isMinus (s * t) = (isMinus s != isMinus t) := by
  cases s <;> cases t <;> rfl

theorem isMinus_div (s t : Sign) : isMinus (s / t) = (isMinus s != isMinus t) := by
  cases s <;> cases t <;> rfl

theorem isMinus_neg (s : Sign) : isMinus (-s) = !isMinus s := by
  cases s <;> rfl

theorem ofUnpacked_eq_finite {u : UnpackedFloat} {b : Binary}
    (h : Reading.ofUnpacked u = .finite b) :
    (∃ s, u = .zero s ∧ b = ⟨isMinus s, 0, -1074⟩) ∨
      ∃ s m e, ∃ hpos : 0 < m, u = .finite s m e hpos ∧ b = ⟨isMinus s, m, e⟩ := by
  cases u <;> cases h
  · exact .inl ⟨_, rfl, rfl⟩
  · exact .inr ⟨_, _, _, _, rfl, rfl⟩

theorem log_le_of_le {k : ℕ} (h : 2 ^ k ≤ m) : k ≤ m.log2 :=
  (Nat.le_log2 (by have := Nat.two_pow_pos k; omega)).mpr h

theorem two_pow_log2_add_le (hm : 0 < m) (k : ℕ) : 2 ^ (m.log2 + k) ≤ m * 2 ^ k := by
  rw [pow_add]
  exact Nat.mul_le_mul_right _ (Nat.log2_self_le hm.ne')

section Unpacked
variable {n : ℕ} {f : ℤ}

theorem ofUnpacked_mul (hm : 0 < m) (hn : 0 < n) (s t : Sign)
    (hfit : 52 ≤ (m * n).log2 ∨ e + f ≤ -1074) :
    Reading.ofUnpacked (Float.Model.pack
      (UnpackedFloat.mul Format.binary64 (.finite s m e hm) (.finite t n f hn))).unpack =
        .nearest (isMinus s != isMinus t) (m * 2 ^ e * (n * 2 ^ f)) := by
  have hexact : (m * 2 ^ e * (n * 2 ^ f) : ℚ) / 2 ^ (e + f) = (m * n : ℕ) := by
    rw [div_eq_iff (two_zpow_pos _).ne', two_zpow_add]
    push_cast
    ring
  rw [← isMinus_mul]
  exact ofUnpacked_round _ (hexact ▸ .exact _) hfit

theorem ofUnpacked_div (hm : 0 < m) (hn : 0 < n) (s t : Sign) :
    Reading.ofUnpacked (Float.Model.pack
      (UnpackedFloat.div Format.binary64 (.finite s m e hm) (.finite t n f hn))).unpack =
        .nearest (isMinus s != isMinus t) (m * 2 ^ e / (n * 2 ^ f)) := by
  have hnpos : (0 : ℚ) < n := by exact_mod_cast hn
  simp only [UnpackedFloat.div, divCore, targetExponent_eq, ← isMinus_div]
  generalize htarget : min (e - f) (max (totalExponent m e - totalExponent n f - 53) (-1074)) = g
  obtain ⟨k, hk⟩ : ∃ k : ℕ, e - f = g + k := by
    obtain ⟨k, hk⟩ := Int.le.dest (show g ≤ e - f by omega)
    exact ⟨k, hk.symm⟩
  rw [show (e - f - g).toNat = k by omega, Nat.shiftLeft_eq]
  have hexact : (m * 2 ^ e / (n * 2 ^ f) : ℚ) / 2 ^ g = (m * 2 ^ k : ℕ) / n := by
    rw [show e = f + (g + k) by omega, two_zpow_add, two_zpow_add, zpow_natCast]
    have hf := two_zpow_pos f
    have hg := two_zpow_pos g
    push_cast
    field_simp
  refine ofUnpacked_round _ (hexact ▸ .fraction hn) ?_
  rcases le_or_gt g (-1074) with hlow | hhigh
  · exact .inr hlow
  · -- the dividend was shifted until the quotient has all of its digits
    refine .inl (log_le_of_le ((Nat.le_div_iff_mul_le hn).mpr ?_))
    have hshift : 53 + n.log2 ≤ m.log2 + k := by
      unfold totalExponent at htarget
      omega
    calc 2 ^ 52 * n ≤ 2 ^ 52 * 2 ^ (n.log2 + 1) :=
          Nat.mul_le_mul_left _ Nat.lt_log2_self.le
      _ = 2 ^ (53 + n.log2) := by rw [← pow_add]; congr 1; omega
      _ ≤ 2 ^ (m.log2 + k) := Nat.pow_le_pow_right (by norm_num) hshift
      _ ≤ m * 2 ^ k := two_pow_log2_add_le hm k

end Unpacked

namespace Reading

variable {x y : Float} {a b : Binary}

/-- A product of finite doubles is the exact product, rounded. -/
theorem of_mul (hx : of x = .finite a) (hy : of y = .finite b) :
    of (x * y) = nearest (a.negative != b.negative) (a.magnitude * b.magnitude) := by
  have hmul : of (x * y) = ofUnpacked (Float.Model.pack
      (UnpackedFloat.mul Format.binary64 x.toModel.unpack y.toModel.unpack)).unpack := of_eq _
  obtain ⟨⟨-, -, hfullx⟩, -⟩ := isCanonical hx
  obtain ⟨⟨-, -, hfully⟩, -⟩ := isCanonical hy
  rw [of_eq] at hx hy
  rw [hmul]
  rcases ofUnpacked_eq_finite hx with ⟨s, hs, rfl⟩ | ⟨s, m, e, hm, hs, rfl⟩ <;>
    rcases ofUnpacked_eq_finite hy with ⟨t, ht, rfl⟩ | ⟨t, n, f, hn, ht, rfl⟩ <;>
      rw [hs, ht]
  case inr.inr =>
    refine ofUnpacked_mul hm hn s t ?_
    -- one of the factors has all of its digits, or both have the lowest place
    rcases hfullx with hfullx | rfl
    · exact .inl (log_le_of_le (hfullx.trans (Nat.le_mul_of_pos_right m hn)))
    · rcases hfully with hfully | rfl
      · exact .inl (log_le_of_le (hfully.trans (Nat.le_mul_of_pos_left n hm)))
      · exact .inr (by norm_num)
  all_goals
    simp [UnpackedFloat.mul, Binary.magnitude, nearest_zero, ofUnpacked_pack_zero, isMinus_mul]

theorem of_div_eq (x y : Float) : of (x / y) = ofUnpacked (Float.Model.pack
    (UnpackedFloat.div Format.binary64 x.toModel.unpack y.toModel.unpack)).unpack :=
  of_eq _

theorem of_div (hx : of x = .finite a) (hy : of y = .finite b) (hb : b.significand ≠ 0) :
    of (x / y) = nearest (a.negative != b.negative) (a.magnitude / b.magnitude) := by
  rw [of_eq] at hx hy
  rw [of_div_eq]
  rcases ofUnpacked_eq_finite hy with ⟨t, ht, rfl⟩ | ⟨t, n, f, hn, ht, rfl⟩
  · exact absurd rfl hb
  · rcases ofUnpacked_eq_finite hx with ⟨s, hs, rfl⟩ | ⟨s, m, e, hm, hs, rfl⟩
    · rw [hs, ht]
      simp [UnpackedFloat.div, Binary.magnitude, nearest_zero, ofUnpacked_pack_zero, isMinus_div]
    · rw [hs, ht]
      exact ofUnpacked_div hm hn s t

theorem of_div_infinite {negative : Bool} (hx : of x = .infinite negative) (hy : of y = .finite b) :
    of (x / y) = .infinite (negative != b.negative) := by
  rw [of_eq] at hx hy
  rw [of_div_eq]
  cases hs : x.toModel.unpack <;> rw [hs] at hx <;> cases hx
  rcases ofUnpacked_eq_finite hy with ⟨t, ht, rfl⟩ | ⟨t, n, f, hn, ht, rfl⟩ <;>
    simp [ht, UnpackedFloat.div, ofUnpacked_pack_infinity, isMinus_div]

theorem of_div_nan (hx : of x = .nan) (y : Float) : of (x / y) = .nan := by
  rw [of_eq] at hx
  rw [of_div_eq]
  cases hs : x.toModel.unpack <;> rw [hs] at hx <;> cases hx
  rw [UnpackedFloat.div]
  decide +kernel

/-- Finite doubles lie below the overflow. -/
theorem magnitude_lt_overflow (hx : of x = .finite a) : a.magnitude < overflow := by
  obtain ⟨hcanonical, hle⟩ := isCanonical hx
  have hsmall : a.magnitude < 2 ^ (1024 : ℤ) := by
    rw [Binary.magnitude, ← not_le, hcanonical.great_iff]
    omega
  have hexact : rounded a.magnitude = a.magnitude := rounded_of_exact hcanonical.lt hcanonical.low
  rw [← rounded_lt_iff_overflow a.magnitude_nonneg, hexact]
  exact hsmall

/-- The same magnitude with the other sign. -/
def neg : Reading → Reading
  | .nan => .nan
  | .infinite negative => .infinite (!negative)
  | .finite b => .finite { b with negative := !b.negative }

theorem neg_nearest (negative : Bool) (v : ℚ) : (nearest negative v).neg = nearest (!negative) v := by
  unfold nearest
  split
  · rfl
  · split <;> rfl

/-- Negation changes nothing but the sign. -/
theorem of_neg (x : Float) : of (-x) = (of x).neg := by
  have hneg : of (-x) = ofUnpacked (Float.Model.pack x.toModel.unpack.neg).unpack := of_eq _
  rw [hneg, of_eq x]
  cases hu : x.toModel.unpack with
  | infinity s =>
    rw [UnpackedFloat.neg, ofUnpacked_pack_infinity, isMinus_neg]
    rfl
  | notANumber => decide +kernel
  | zero s =>
    rw [UnpackedFloat.neg, ofUnpacked_pack_zero, isMinus_neg]
    rfl
  | finite s m e hpos =>
    obtain ⟨hcanonical, hle⟩ : IsCanonical m e ∧ e ≤ 971 :=
      isCanonical ((of_eq x).trans (congrArg ofUnpacked hu))
    have hsmall : ¬(2 : ℚ) ^ (1024 : ℤ) ≤ m * 2 ^ e := by
      rw [hcanonical.great_iff]
      omega
    rw [UnpackedFloat.neg, ofUnpacked_pack hcanonical, if_neg hsmall, isMinus_neg]
    rfl

/-- A whole number is converted to the nearest double. -/
theorem of_toFloat (n : UInt64) : of n.toFloat = nearest false n.toNat := by
  have hconvert : of n.toFloat = ofUnpacked (Float.Model.pack
      (UnpackedFloat.normalize Format.binary64 n.toNat 0 .positive)).unpack := of_eq _
  rw [hconvert]
  rcases Nat.eq_zero_or_pos n.toNat with hzero | hpos
  · rw [hzero]
    exact (ofUnpacked_pack_zero .positive).trans (by rw [Nat.cast_zero, nearest_zero]; rfl)
  · have hcompare : compare (n.toNat : ℤ) 0 = .gt := compare_gt_iff_gt.mpr (by exact_mod_cast hpos)
    simp only [UnpackedFloat.normalize, hcompare, UnpackedFloat.round, decreaseExponent,
      targetExponent_eq, Int.toNat_natCast, Nat.shiftLeft_eq]
    generalize hk : (0 - max (totalExponent n.toNat 0 - 53) (-1074)).toNat = k
    have hexact : (n.toNat : ℚ) / 2 ^ (0 - k : ℤ) = (n.toNat * 2 ^ k : ℕ) := by
      rw [zero_sub, zpow_neg, zpow_natCast, div_inv_eq_mul]
      norm_cast
    refine ofUnpacked_round _ (hexact ▸ .exact _) (.inl (log_le_of_le ?_))
    have hshift : 52 ≤ n.toNat.log2 + k := by
      unfold totalExponent at hk
      omega
    exact (Nat.pow_le_pow_right (by norm_num) hshift).trans (two_pow_log2_add_le hpos k)

end Reading

end KubeLedger.Decimal
