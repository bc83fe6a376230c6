import Mathlib.Data.Int.Log
import Mathlib.Data.Rat.Floor
import Mathlib.Tactic.Linarith
import Mathlib.Tactic.NormNum
import KubeLedger.Decimal

/- Rounding to doubles as exact arithmetic. A number is rounded to a multiple of the last binary place
   that a double of its size has, to the nearer of two and from the middle to the even one
   (`rounded`). Rounded numbers stay as they are (`rounded_of_exact`), and a power of two is not
   reached from below the last half place before it (`rounded_lt_iff`); past the greatest power there
   are no doubles, so that from `overflow` on the nearest double is infinite (`Reading.nearest`). -/
namespace KubeLedger.Decimal

variable {q v : ℚ} {n m : ℕ} {e t p : ℤ}

/-! ## Whole numbers -/

/-- The whole number nearest to a number that is not negative; of two equally near the even one. -/
def nearestEven (q : ℚ) : ℕ :=
  let n := ⌊q⌋₊
  if q < n + 1 / 2 then n else if q = n + 1 / 2 then n + n % 2 else n + 1

/-- What is rounded to a whole number lies between its neighbours. -/
theorem floor_le_nearestEven (q : ℚ) : ⌊q⌋₊ ≤ nearestEven q ∧ nearestEven q ≤ ⌊q⌋₊ + 1 := by
  simp only [nearestEven]
  split
  · omega
  · split <;> omega

theorem nearestEven_natCast (n : ℕ) : nearestEven n = n := by
  simp [nearestEven]

theorem le_nearestEven (h : (n : ℚ) ≤ q) : n ≤ nearestEven q :=
  (Nat.le_floor h).trans (floor_le_nearestEven q).1

theorem nearestEven_le (h : q ≤ n) : nearestEven q ≤ n := by
  rcases h.lt_or_eq with h | rfl
  · rcases le_or_gt 0 q with hq | hq
    · have hfloor : ⌊q⌋₊ < n := (Nat.floor_lt hq).mpr h
      exact (floor_le_nearestEven q).2.trans hfloor
    · simp [nearestEven, Nat.floor_of_nonpos hq.le, hq.trans]
  · exact (nearestEven_natCast n).le

/-- From the middle below an even number one goes up to it. -/
theorem nearestEven_lt_iff (hq : 0 ≤ q) (hn : n % 2 = 0) : nearestEven q < n ↔ q < n - 1 / 2 := by
  obtain ⟨hlow, hhigh⟩ := (Nat.floor_eq_iff hq).mp (rfl : ⌊q⌋₊ = ⌊q⌋₊)
  have hbounds := floor_le_nearestEven q
  rcases lt_trichotomy (⌊q⌋₊ + 1) n with h | h | h
  · have hcast : (⌊q⌋₊ : ℚ) + 1 + 1 ≤ n := by exact_mod_cast h
    exact ⟨fun _ => by linarith, fun _ => by omega⟩
  · have hodd : ⌊q⌋₊ % 2 = 1 := by omega
    have hcast : (n : ℚ) = ⌊q⌋₊ + 1 := by exact_mod_cast h.symm
    have hmiddle : (n : ℚ) - 1 / 2 = ⌊q⌋₊ + 1 / 2 := by
      rw [hcast]
      ring
    rw [hmiddle]
    simp only [nearestEven, hodd]
    split
    · next hbelow => exact ⟨fun _ => hbelow, fun _ => by omega⟩
    · next habove => split <;> exact ⟨fun _ => by omega, fun hbelow => absurd hbelow habove⟩
  · have hcast : (n : ℚ) ≤ ⌊q⌋₊ := by exact_mod_cast Nat.lt_succ_iff.mp h
    exact ⟨fun _ => by omega, fun _ => by linarith⟩

/-! ## Places -/

/-- The last binary place that a double of this size has. There are fifty-three places, but none below
`2 ^ -1074`. -/
def place (v : ℚ) : ℤ := if v < 2 ^ (-1022 : ℤ) then -1074 else Int.log 2 v - 52

/-- Powers of two of whole exponents, as they are compared. -/
theorem two_zpow_le_iff : (2 : ℚ) ^ e ≤ 2 ^ t ↔ e ≤ t :=
  zpow_le_zpow_iff_right₀ one_lt_two

theorem two_zpow_lt_iff : (2 : ℚ) ^ e < 2 ^ t ↔ e < t :=
  zpow_lt_zpow_iff_right₀ one_lt_two

theorem two_zpow_pos (e : ℤ) : (0 : ℚ) < 2 ^ e := zpow_pos two_pos e

theorem two_zpow_add (e t : ℤ) : (2 : ℚ) ^ (e + t) = 2 ^ e * 2 ^ t := zpow_add₀ two_ne_zero e t

theorem log_eq (hlow : (2 : ℚ) ^ e ≤ v) (hhigh : v < 2 ^ (e + 1)) : Int.log 2 v = e := by
  have hv : 0 < v := (two_zpow_pos e).trans_le hlow
  have hle : e ≤ Int.log 2 v := (Int.zpow_le_iff_le_log one_lt_two hv).mp (by exact_mod_cast hlow)
  have hlt : Int.log 2 v < e + 1 :=
    (Int.lt_zpow_iff_log_lt one_lt_two hv).mp (by exact_mod_cast hhigh)
  omega

/-- A number of fifty-three places, or of fewer from the lowest on, ends there. -/
theorem place_eq (ht : -1074 ≤ t) (hhigh : v < 2 ^ (t + 53))
    (hlow : 2 ^ (t + 52) ≤ v ∨ t = -1074) : place v = t := by
  unfold place
  split
  · next hv =>
    rcases hlow with hlow | rfl
    · have := two_zpow_lt_iff.mp (hlow.trans_lt hv)
      omega
    · rfl
  · next hv =>
    have hlow : (2 : ℚ) ^ (t + 52) ≤ v := by
      rcases hlow with hlow | rfl
      · exact hlow
      · exact not_lt.mp hv
    have hlog : Int.log 2 v = t + 52 := log_eq hlow (by rwa [add_assoc])
    omega

/-- Every number ends at its place. -/
theorem place_spec (v : ℚ) :
    -1074 ≤ place v ∧ v < 2 ^ (place v + 53) ∧ (2 ^ (place v + 52) ≤ v ∨ place v = -1074) := by
  unfold place
  split
  · next hv =>
    refine ⟨le_rfl, hv.trans ?_, .inr rfl⟩
    rw [two_zpow_lt_iff]
    omega
  · next hv =>
    have hv : (2 : ℚ) ^ (-1022 : ℤ) ≤ v := not_lt.mp hv
    have hpos : 0 < v := (two_zpow_pos _).trans_le hv
    have hlog : -1022 ≤ Int.log 2 v :=
      (Int.zpow_le_iff_le_log one_lt_two hpos).mp (by exact_mod_cast hv)
    refine ⟨by omega, ?_, .inl ?_⟩
    · rw [show Int.log 2 v - 52 + 53 = Int.log 2 v + 1 by ring]
      exact_mod_cast Int.lt_zpow_succ_log_self one_lt_two v
    · rw [sub_add_cancel]
      exact_mod_cast Int.zpow_log_le_self one_lt_two hpos

/-! ## Rounding -/

/-- How many of its last place a number has, rounded. -/
def significand (v : ℚ) : ℕ := nearestEven (v / 2 ^ place v)

/-- A number that is not negative, rounded to the places of a double. -/
def rounded (v : ℚ) : ℚ := significand v * 2 ^ place v

theorem div_place_lt (v : ℚ) : v / 2 ^ place v < 2 ^ 53 := by
  obtain ⟨-, hhigh, -⟩ := place_spec v
  rw [div_lt_iff₀ (two_zpow_pos _)]
  rw [two_zpow_add, mul_comm] at hhigh
  exact_mod_cast hhigh

theorem significand_le (v : ℚ) : significand v ≤ 2 ^ 53 :=
  nearestEven_le (by exact_mod_cast (div_place_lt v).le)

theorem le_significand (h : 2 ^ (place v + 52) ≤ v) : 2 ^ 52 ≤ significand v := by
  refine le_nearestEven ?_
  rw [le_div_iff₀ (two_zpow_pos _)]
  rw [two_zpow_add, mul_comm] at h
  exact_mod_cast h

/-- A number that is rounded up to one place more does not need its last one. -/
theorem rounded_of_carry (h : 2 ^ 53 ≤ significand v) :
    rounded v = (2 ^ 52 : ℕ) * 2 ^ (place v + 1) := by
  rw [rounded, le_antisymm (significand_le v) h, two_zpow_add]
  norm_num
  ring

/-- A number of at most fifty-three places stays as it is. -/
theorem rounded_of_exact (hm : m < 2 ^ 53) (he : -1074 ≤ e) : rounded (m * 2 ^ e) = m * 2 ^ e := by
  have hcast : (m : ℚ) < 2 ^ (53 : ℤ) := by exact_mod_cast hm
  have hplace : place (m * 2 ^ e) ≤ e := by
    obtain ⟨-, -, hlow | hlow⟩ := place_spec (m * 2 ^ e)
    · have hlt : (2 : ℚ) ^ (place (m * 2 ^ e) + 52) < 2 ^ (53 + e) := by
        rw [two_zpow_add 53 e]
        exact hlow.trans_lt (mul_lt_mul_of_pos_right hcast (two_zpow_pos e))
      have := two_zpow_lt_iff.mp hlt
      omega
    · omega
  obtain ⟨k, hk⟩ := Int.le.dest hplace
  have hwhole : (m * 2 ^ e : ℚ) / 2 ^ place (m * 2 ^ e) = (m * 2 ^ k : ℕ) := by
    rw [div_eq_iff (two_zpow_pos _).ne']
    conv_lhs => rw [← hk, two_zpow_add]
    push_cast
    rw [zpow_natCast]
    ring
  rw [rounded, significand, hwhole, nearestEven_natCast, ← hwhole,
    div_mul_cancel₀ _ (two_zpow_pos _).ne']

/-- What is rounded has at most fifty-three places. -/
theorem exists_rounded_eq (v : ℚ) : ∃ m : ℕ, ∃ e : ℤ, m < 2 ^ 53 ∧ -1074 ≤ e ∧
    rounded v = m * 2 ^ e := by
  obtain ⟨hmin, -, -⟩ := place_spec v
  rcases lt_or_ge (significand v) (2 ^ 53) with h | h
  · exact ⟨_, _, h, hmin, rfl⟩
  · exact ⟨2 ^ 52, place v + 1, by norm_num, by omega, rounded_of_carry h⟩

theorem rounded_rounded (v : ℚ) : rounded (rounded v) = rounded v := by
  obtain ⟨m, e, hm, he, h⟩ := exists_rounded_eq v
  rw [h, rounded_of_exact hm he]

theorem rounded_nonneg (v : ℚ) : 0 ≤ rounded v :=
  mul_nonneg (Nat.cast_nonneg _) (two_zpow_pos _).le

/-- A power of two is reached from the last half place before it on. -/
theorem rounded_lt_iff (hv : 0 ≤ v) (hp : -1021 ≤ p) :
    rounded v < 2 ^ p ↔ v < 2 ^ p - 2 ^ (p - 54) := by
  obtain ⟨hmin, hhigh, hlow⟩ := place_spec v
  have hunit := two_zpow_pos (place v)
  have hhalf := two_zpow_pos (p - 54)
  rcases lt_trichotomy (place v + 53) p with h | h | h
  · -- far below the power
    have hgap : (2 : ℚ) ^ (place v + 53) ≤ 2 ^ (p - 1) := two_zpow_le_iff.mpr (by omega)
    have hsplit : (2 : ℚ) ^ p = 2 ^ (p - 1) + 2 ^ (p - 1) := by
      rw [← mul_two, ← zpow_add_one₀ two_ne_zero, sub_add_cancel]
    have hhalf' : (2 : ℚ) ^ (p - 54) < 2 ^ (p - 1) := two_zpow_lt_iff.mpr (by omega)
    have hle : rounded v ≤ 2 ^ (place v + 53) := by
      rw [rounded, two_zpow_add, mul_comm]
      exact mul_le_mul_of_nonneg_left (by exact_mod_cast significand_le v) hunit.le
    constructor
    · intro
      linarith
    · intro
      linarith
  · -- the last places before the power
    obtain rfl : p = place v + 53 := h.symm
    have hpower : (2 : ℚ) ^ (place v + 53) = (2 ^ 53 : ℕ) * 2 ^ place v := by
      rw [two_zpow_add, mul_comm]
      norm_cast
    have hmiddle : (2 : ℚ) ^ (place v + 53 - 54) = 1 / 2 * 2 ^ place v := by
      rw [show place v + 53 - 54 = place v - 1 by ring, zpow_sub_one₀ two_ne_zero]
      ring
    have hq : 0 ≤ v / 2 ^ place v := div_nonneg hv hunit.le
    rw [rounded, hpower, hmiddle, ← sub_mul, mul_lt_mul_iff_left₀ hunit, ← div_lt_iff₀ hunit,
      Nat.cast_lt]
    exact nearestEven_lt_iff hq (by norm_num)
  · -- from the power on
    have hlow : 2 ^ (place v + 52) ≤ v := hlow.resolve_right (by omega)
    have hle : (2 : ℚ) ^ p ≤ 2 ^ (place v + 52) := two_zpow_le_iff.mpr (by omega)
    have hrounded : (2 : ℚ) ^ (place v + 52) ≤ rounded v := by
      rw [rounded, two_zpow_add, mul_comm]
      exact mul_le_mul_of_nonneg_right (by exact_mod_cast le_significand hlow) hunit.le
    constructor
    · intro
      linarith
    · intro
      linarith

/-! ## Doubles -/

/-- From this number on, the middle between the greatest double and the next power of two, numbers are
too great for a double. -/
def overflow : ℚ := 2 ^ (1024 : ℤ) - 2 ^ (970 : ℤ)

theorem natCast_two_pow_sub {a b : ℕ} (h : b ≤ a) :
    ((2 ^ a - 2 ^ b : ℕ) : ℚ) = 2 ^ (a : ℤ) - 2 ^ (b : ℤ) := by
  rw [Nat.cast_sub (Nat.pow_le_pow_right two_pos h), Nat.cast_pow, Nat.cast_pow, Nat.cast_ofNat,
    zpow_natCast, zpow_natCast]

/-- The overflow is a whole number. -/
theorem overflow_eq_natCast : overflow = ((2 ^ 1024 - 2 ^ 970 : ℕ) : ℚ) :=
  (natCast_two_pow_sub (show 970 ≤ 1024 by norm_num)).symm

theorem overflow_nonneg : 0 ≤ overflow := sub_nonneg.mpr (two_zpow_le_iff.mpr (by norm_num))

theorem rounded_lt_iff_overflow (hv : 0 ≤ v) : rounded v < 2 ^ (1024 : ℤ) ↔ v < overflow :=
  rounded_lt_iff hv (by norm_num)

theorem two_zpow_le_overflow : (2 : ℚ) ^ (1023 : ℤ) ≤ overflow := by
  have hsplit : (2 : ℚ) ^ (1024 : ℤ) = 2 ^ (1023 : ℤ) + 2 ^ (1023 : ℤ) := by
    rw [← mul_two, ← zpow_add_one₀ two_ne_zero]
    norm_num
  have hhalf : (2 : ℚ) ^ (970 : ℤ) ≤ 2 ^ (1023 : ℤ) := two_zpow_le_iff.mpr (by norm_num)
  rw [overflow, hsplit, add_sub_assoc]
  exact le_add_of_nonneg_right (sub_nonneg.mpr hhalf)

theorem rounded_lt_overflow (hv : 0 ≤ v) (h : v < overflow) : rounded v < overflow := by
  rw [← rounded_lt_iff_overflow (rounded_nonneg v), rounded_rounded, rounded_lt_iff_overflow hv]
  exact h

theorem rounded_mul_two_pow_lt_iff {k : ℕ} (hv : 0 ≤ v) (hk : k ≤ 2045) :
    rounded v * 2 ^ k < overflow ↔ v * 2 ^ k < overflow := by
  have hpos : (0 : ℚ) < 2 ^ k := pow_pos two_pos k
  have hscaled : overflow = (2 ^ (1024 - k : ℤ) - 2 ^ (1024 - k - 54 : ℤ)) * 2 ^ k := by
    rw [sub_mul, ← zpow_natCast, ← two_zpow_add, ← two_zpow_add, overflow]
    congr 2 <;> ring
  rw [hscaled, mul_lt_mul_iff_left₀ hpos, mul_lt_mul_iff_left₀ hpos,
    ← rounded_lt_iff (rounded_nonneg v) (by omega), rounded_rounded, rounded_lt_iff hv (by omega)]

/-- The double nearest to a number, given its sign and its magnitude. -/
def Reading.nearest (negative : Bool) (v : ℚ) : Reading :=
  if 2 ^ (1024 : ℤ) ≤ rounded v then .infinite negative
  else if significand v < 2 ^ 53 then .finite ⟨negative, significand v, place v⟩
  else .finite ⟨negative, 2 ^ 52, place v + 1⟩

/-- The exact value of a finite double without its sign. -/
def Binary.magnitude (b : Binary) : ℚ := b.significand * 2 ^ b.exponent

theorem Binary.magnitude_nonneg (b : Binary) : 0 ≤ b.magnitude :=
  mul_nonneg (Nat.cast_nonneg _) (two_zpow_pos _).le

theorem Reading.nearest_cases (negative : Bool) (hv : 0 ≤ v) :
    (v < overflow ∧ ∃ b, nearest negative v = .finite b ∧ b.negative = negative ∧
      b.magnitude = rounded v) ∨
    (overflow ≤ v ∧ nearest negative v = .infinite negative) := by
  have hiff := rounded_lt_iff_overflow hv
  unfold nearest
  split
  · next h => exact .inr ⟨not_lt.mp fun hlt => absurd (hiff.mpr hlt) (not_lt.mpr h), rfl⟩
  · next h =>
    refine .inl ⟨hiff.mp (not_le.mp h), ?_⟩
    split
    · exact ⟨_, rfl, rfl, rfl⟩
    · next hcarry => exact ⟨_, rfl, rfl, (rounded_of_carry (not_lt.mp hcarry)).symm⟩

end KubeLedger.Decimal
