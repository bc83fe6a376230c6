import Mathlib.Algebra.Order.Field.Rat
import Mathlib.Data.List.Induction
import Mathlib.Tactic.Ring
import KubeLedger.Decimal

/- Decimal literals as exact numbers. A literal writes a rational number (`Literal.value`); which
   double it denotes is another matter. Digits that are written are read back as the number that they
   are of (`natOfDigits_toDigits`), whatever zeros stand in front, and digits around a point are one
   literal, whose exponent counts those behind the point (`Literal.read?_point`). -/
namespace KubeLedger.Decimal

/-- The exact number that a literal writes. -/
def Literal.value (l : Literal) : ℚ :=
  (if l.negative then -1 else 1) * l.digits * 10 ^ l.exponent

/-! ## The number of digits -/

theorem natOfDigits_eq (cs : List Char) : natOfDigits cs = Nat.ofDigitChars 10 cs 0 := by
  unfold natOfDigits Nat.ofDigitChars
  congr 1
  funext n c
  rw [Nat.mul_comm]
  rfl

theorem natOfDigits_toDigits (n : Nat) : natOfDigits (Nat.toDigits 10 n) = n := by
  rw [natOfDigits_eq, Nat.ofDigitChars_ten_toDigits]

theorem natOfDigits_snoc (cs : List Char) (c : Char) :
    natOfDigits (cs ++ [c]) = natOfDigits cs * 10 + (c.toNat - 48) := by
  simp [natOfDigits]

theorem natOfDigits_append (cs ds : List Char) :
    natOfDigits (cs ++ ds) = natOfDigits cs * 10 ^ ds.length + natOfDigits ds := by
  induction ds using List.reverseRecOn with
  | nil => simp [natOfDigits]
  | append_singleton ds d ih =>
    rw [← List.append_assoc, natOfDigits_snoc, natOfDigits_snoc, ih, List.length_append,
      List.length_singleton, Nat.pow_succ]
    ring

/-- Zeros in front change nothing. -/
theorem natOfDigits_zeros (n : Nat) (ds : List Char) :
    natOfDigits (List.replicate n '0' ++ ds) = natOfDigits ds := by
  induction n with
  | zero => rfl
  | succ n ih => simpa [natOfDigits, List.replicate_succ] using ih

/-! ## Reading -/

theorem spanDigits_append {ds rest : List Char} (hds : ∀ c ∈ ds, c.isDigit = true)
    (hrest : ∀ c ∈ rest.head?, c.isDigit = false) : spanDigits (ds ++ rest) = (ds, rest) := by
  unfold spanDigits
  rw [List.takeWhile_append_of_pos hds, List.dropWhile_append_of_pos hds]
  cases rest with
  | nil => simp
  | cons c rest =>
    have hc := hrest c rfl
    simp [hc]

/-- A text without a sign at its front is the whole of the number. -/
theorem readSign_of_digit {c : Char} {rest : List Char} (hc : c.isDigit = true) :
    readSign (c :: rest) = (false, c :: rest) := by
  unfold readSign
  split
  · next heq => cases heq; exact absurd hc (by decide)
  · next heq => cases heq; exact absurd hc (by decide)
  · rfl

/-- Digits around a point, behind an optional minus, are read as one number. -/
theorem Literal.read?_point {whole fraction : List Char} (negative : Bool) (hne : whole ≠ [])
    (hwhole : ∀ c ∈ whole, c.isDigit = true) (hfraction : ∀ c ∈ fraction, c.isDigit = true) :
    Literal.read? ((if negative then ['-'] else []) ++ (whole ++ '.' :: fraction)) =
      some ⟨negative, natOfDigits (whole ++ fraction), -(fraction.length : Int)⟩ := by
  have hsign : readSign ((if negative then ['-'] else []) ++ (whole ++ '.' :: fraction)) =
      (negative, whole ++ '.' :: fraction) := by
    cases negative with
    | true => rfl
    | false =>
      obtain ⟨c, rest, rfl⟩ := List.exists_cons_of_ne_nil hne
      exact readSign_of_digit (hwhole c List.mem_cons_self)
  have hspan : spanDigits (whole ++ '.' :: fraction) = (whole, '.' :: fraction) :=
    spanDigits_append hwhole (by simp)
  have hrest : spanDigits (fraction ++ []) = (fraction, []) := spanDigits_append hfraction (by simp)
  rw [List.append_nil] at hrest
  simp only [Literal.read?, hsign, hspan, readFraction, hrest]
  simp [hne, readExponent?]

/-- The number of such a text: the digits without the point, divided by a power of ten. -/
theorem Literal.value_point (negative : Bool) (whole fraction : List Char) :
    Literal.value ⟨negative, natOfDigits (whole ++ fraction), -(fraction.length : Int)⟩ =
      (if negative then -1 else 1) *
        ((natOfDigits whole * 10 ^ fraction.length + natOfDigits fraction : Nat) : ℚ) /
          10 ^ fraction.length := by
  simp only [Literal.value]
  rw [natOfDigits_append, zpow_neg, zpow_natCast, div_eq_mul_inv]

end KubeLedger.Decimal
