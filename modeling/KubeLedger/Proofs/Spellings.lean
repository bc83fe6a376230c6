import KubeLedger.Decimal
import KubeLedger.Proofs.Literals

/- How decimal literals are written: an optional sign, digits with an optional point, at least one
   digit in all, and an optional exponent (`Spelling`). Reading accepts exactly what is written so and
   takes each part for what it is (`Literal.read?_spelling`, `Literal.spelling_of_read?`). The words
   for infinities and NaN name doubles too, but no finite ones, so the finite doubles that a text can
   name are those of spellings (`readChars?_finite_iff`). -/
namespace KubeLedger.Decimal

/-! ## Written forms -/

/-- What may stand in front of digits. -/
def signs : List (List Char) := [[], ['+'], ['-']]

/-- An exponent: its letter, an optional sign, and digits. -/
structure Power where
  letter : Char
  sign : List Char
  digits : List Char
  letter_mem : letter ∈ ['e', 'E']
  sign_mem : sign ∈ signs
  isDigit : ∀ c ∈ digits, c.isDigit = true
  digits_ne : digits ≠ []

namespace Power

def chars (p : Power) : List Char := p.letter :: (p.sign ++ p.digits)

/-- The power of ten that an exponent says. -/
def value (p : Power) : Int :=
  if p.sign = ['-'] then -(natOfDigits p.digits : Int) else natOfDigits p.digits

end Power

/-- A decimal literal as it is written. -/
structure Spelling where
  sign : List Char
  whole : List Char
  /-- The digits behind the point, if there is one. -/
  fraction : Option (List Char)
  exponent : Option Power
  sign_mem : sign ∈ signs
  isDigit : ∀ c ∈ whole ++ fraction.getD [], c.isDigit = true
  digits_ne : whole ++ fraction.getD [] ≠ []

/-- A point and what stands behind it. -/
def pointed : Option (List Char) → List Char
  | none => []
  | some ds => '.' :: ds

/-- An exponent, if there is one. -/
def powered : Option Power → List Char
  | none => []
  | some p => p.chars

namespace Spelling

def chars (s : Spelling) : List Char :=
  s.sign ++ (s.whole ++ (pointed s.fraction ++ powered s.exponent))

def literal (s : Spelling) : Literal :=
  ⟨s.sign = ['-'], natOfDigits (s.whole ++ s.fraction.getD []),
    (s.exponent.map Power.value).getD 0 - (s.fraction.getD []).length⟩

/-- The double that the literal denotes. -/
def toFloat (s : Spelling) : Float := s.literal.toFloat

/-- Behind its sign a literal begins with a digit or with the point. -/
theorem chars_eq_append (s : Spelling) : ∃ c rest, s.chars = s.sign ++ c :: rest ∧
    (c.isDigit = true ∨ c = '.') := by
  obtain ⟨sign, whole, fraction, exponent, -, hdigit, hne⟩ := s
  cases whole with
  | cons c whole => exact ⟨c, _, rfl, .inl (hdigit c List.mem_cons_self)⟩
  | nil =>
    cases fraction with
    | none => exact absurd rfl hne
    | some ds => exact ⟨'.', _, rfl, .inr rfl⟩

/-- A literal ends in a digit or in the point. -/
theorem getLast?_chars (s : Spelling) : ∃ c, s.chars.getLast? = some c ∧
    (c.isDigit = true ∨ c = '.') := by
  have hlast : ∀ front ds : List Char, ds ≠ [] → (∀ c ∈ ds, c.isDigit = true) →
      ∃ c, (front ++ ds).getLast? = some c ∧ (c.isDigit = true ∨ c = '.') := by
    intro front ds hne hdigit
    refine ⟨ds.getLast hne, ?_, .inl (hdigit _ (List.getLast_mem hne))⟩
    rw [List.getLast?_append, List.getLast?_eq_some_getLast hne, Option.some_or]
  obtain ⟨sign, whole, fraction, exponent, -, hdigit, hne⟩ := s
  unfold chars
  cases exponent with
  | some p =>
    have hchars : sign ++ (whole ++ (pointed fraction ++ powered (some p))) =
        (sign ++ whole ++ pointed fraction ++ p.letter :: p.sign) ++ p.digits := by
      simp [powered, Power.chars]
    dsimp only
    rw [hchars]
    exact hlast _ _ p.digits_ne p.isDigit
  | none =>
    cases fraction with
    | none =>
      have hne : whole ≠ [] := by simpa using hne
      simpa [pointed, powered] using hlast sign whole hne (by simpa using hdigit)
    | some ds =>
      by_cases hds : ds = []
      · subst hds
        exact ⟨'.', by simp [pointed, powered], .inr rfl⟩
      · have hdigit : ∀ c ∈ ds, c.isDigit = true := fun c hc =>
          hdigit c (List.mem_append_right _ hc)
        simpa [pointed, powered] using hlast (sign ++ (whole ++ ['.'])) ds hds hdigit

end Spelling

/-! ## Reading what is written -/

section Parts
variable {sign rest : List Char} {fraction : Option (List Char)}

theorem readSign_append (hsign : sign ∈ signs) (hrest : ∀ c ∈ rest.head?, c ≠ '-' ∧ c ≠ '+') :
    readSign (sign ++ rest) = (decide (sign = ['-']), rest) := by
  simp only [signs, List.mem_cons, List.not_mem_nil, or_false] at hsign
  obtain rfl | rfl | rfl := hsign
  · rw [List.nil_append]
    unfold readSign
    split
    · exact absurd rfl (hrest '-' rfl).1
    · exact absurd rfl (hrest '+' rfl).2
    · rfl
  · rfl
  · rfl

theorem readFraction_append (hdigits : ∀ c ∈ fraction.getD [], c.isDigit = true)
    (hrest : ∀ c ∈ rest.head?, c.isDigit = false ∧ c ≠ '.') :
    readFraction (pointed fraction ++ rest) = (fraction.getD [], rest) := by
  cases fraction with
  | none =>
    show readFraction rest = ([], rest)
    unfold readFraction
    split
    · exact absurd rfl (hrest '.' rfl).2
    · rfl
  | some ds => exact spanDigits_append hdigits fun c hc => (hrest c hc).1

theorem readExponent?_powered (p : Option Power) :
    readExponent? (powered p) = some ((p.map Power.value).getD 0) := by
  cases p with
  | none => rfl
  | some p =>
    have hsign : readSign (p.sign ++ p.digits) = (decide (p.sign = ['-']), p.digits) := by
      refine readSign_append p.sign_mem fun c hc => ?_
      have hdigit := p.isDigit c (List.mem_of_mem_head? hc)
      constructor <;> rintro rfl <;> cases hdigit
    have hall : p.digits.all Char.isDigit = true := List.all_eq_true.mpr p.isDigit
    have hletter : p.letter = 'e' ∨ p.letter = 'E' := by simpa using p.letter_mem
    simp [powered, Power.chars, readExponent?, hsign, hall, hletter, p.digits_ne, Power.value]

end Parts

theorem Literal.read?_spelling (s : Spelling) : Literal.read? s.chars = some s.literal := by
  obtain ⟨c, rest, hhead, hc⟩ := s.chars_eq_append
  have htail : s.whole ++ (pointed s.fraction ++ powered s.exponent) = c :: rest :=
    List.append_cancel_left hhead
  have hsign : readSign s.chars =
      (decide (s.sign = ['-']), s.whole ++ (pointed s.fraction ++ powered s.exponent)) := by
    refine readSign_append s.sign_mem fun d hd => ?_
    rw [htail, List.head?_cons, Option.mem_some_iff] at hd
    subst hd
    rcases hc with hc | rfl
    · constructor <;> rintro rfl <;> cases hc
    · decide
  have hpower : ∀ c ∈ (powered s.exponent).head?, c.isDigit = false ∧ c ≠ '.' := by
    intro c hc
    cases hexponent : s.exponent with
    | none => simp [hexponent, powered] at hc
    | some p =>
      have hletter : c ∈ ['e', 'E'] := by
        simp only [hexponent, powered, Power.chars, List.head?_cons, Option.mem_some_iff] at hc
        exact hc ▸ p.letter_mem
      simp only [List.mem_cons, List.not_mem_nil, or_false] at hletter
      obtain rfl | rfl := hletter <;> decide
  have hpoint : ∀ c ∈ (pointed s.fraction ++ powered s.exponent).head?, c.isDigit = false := by
    cases hfraction : s.fraction with
    | none => exact fun c hc => (hpower c hc).1
    | some ds => simp [pointed]
  have hwhole : spanDigits (s.whole ++ (pointed s.fraction ++ powered s.exponent)) =
      (s.whole, pointed s.fraction ++ powered s.exponent) :=
    spanDigits_append (fun c hc => s.isDigit c (List.mem_append_left _ hc)) hpoint
  have hfraction : readFraction (pointed s.fraction ++ powered s.exponent) =
      (s.fraction.getD [], powered s.exponent) :=
    readFraction_append (fun c hc => s.isDigit c (List.mem_append_right _ hc)) hpower
  have hdigits : ¬(s.whole.isEmpty = true ∧ (s.fraction.getD []).isEmpty = true) := by
    simpa using s.digits_ne
  simp only [Literal.read?, hsign, hwhole, hfraction, readExponent?_powered, Bool.and_eq_true,
    if_neg hdigits, Option.map_some, Spelling.literal]

/-! ## What can be read is written so -/

section Splits

theorem readSign_split (cs : List Char) : ∃ sign ∈ signs, cs = sign ++ (readSign cs).2 ∧
    (readSign cs).1 = decide (sign = ['-']) := by
  unfold readSign
  split
  · exact ⟨['-'], by decide, rfl, rfl⟩
  · exact ⟨['+'], by decide, rfl, rfl⟩
  · exact ⟨[], by decide, rfl, rfl⟩

theorem spanDigits_split (cs : List Char) : cs = (spanDigits cs).1 ++ (spanDigits cs).2 ∧
    ∀ c ∈ (spanDigits cs).1, c.isDigit = true :=
  ⟨(List.takeWhile_append_dropWhile).symm, List.all_eq_true.mp List.all_takeWhile⟩

theorem readFraction_split (cs : List Char) : ∃ fraction : Option (List Char),
    cs = pointed fraction ++ (readFraction cs).2 ∧ (readFraction cs).1 = fraction.getD [] ∧
      ∀ c ∈ fraction.getD [], c.isDigit = true := by
  unfold readFraction
  split
  · next rest =>
    obtain ⟨hsplit, hdigit⟩ := spanDigits_split rest
    exact ⟨some (spanDigits rest).1, congrArg ('.' :: ·) hsplit, rfl, hdigit⟩
  · exact ⟨none, rfl, rfl, by simp⟩

theorem readExponent?_split {cs : List Char} {e : Int} (h : readExponent? cs = some e) :
    ∃ p : Option Power, cs = powered p ∧ e = (p.map Power.value).getD 0 := by
  unfold readExponent? at h
  split at h
  · cases h
    exact ⟨none, rfl, rfl⟩
  · next c rest =>
    obtain ⟨sign, hmem, hsplit, hnegative⟩ := readSign_split rest
    generalize readSign rest = split at h hsplit hnegative
    obtain ⟨negative, ds⟩ := split
    dsimp only at h hsplit hnegative
    split at h
    · next hletter =>
      split at h
      · cases h
      · next hdigits =>
        simp only [Bool.or_eq_true, List.isEmpty_iff, Bool.not_eq_true', not_or,
          Bool.not_eq_false, List.all_eq_true] at hdigits
        refine ⟨some ⟨c, sign, ds, by simpa using hletter, hmem, hdigits.2, hdigits.1⟩, ?_, ?_⟩
        · rw [hsplit]
          rfl
        · simpa [Power.value, hnegative, eq_comm] using h
    · cases h

end Splits

theorem Literal.spelling_of_read? {cs : List Char} {l : Literal} (h : Literal.read? cs = some l) :
    ∃ s : Spelling, cs = s.chars ∧ l = s.literal := by
  unfold Literal.read? at h
  obtain ⟨sign, hmem, hsign, hnegative⟩ := readSign_split cs
  obtain ⟨hwhole, hdigit⟩ := spanDigits_split (readSign cs).2
  obtain ⟨fraction, hpoint, hfraction, hdigit'⟩ := readFraction_split (spanDigits (readSign cs).2).2
  dsimp only at h
  split at h
  · cases h
  · next hne =>
    obtain ⟨e, he, rfl⟩ := Option.map_eq_some_iff.mp h
    obtain ⟨power, hpower, rfl⟩ := readExponent?_split he
    rw [hfraction] at hne
    refine ⟨⟨sign, (spanDigits (readSign cs).2).1, fraction, power, hmem, ?_, ?_⟩, ?_, ?_⟩
    · intro c hc
      exact (List.mem_append.mp hc).elim (hdigit c) (hdigit' c)
    · simpa using hne
    · unfold Spelling.chars
      rw [← hpower, ← hpoint, ← hwhole, ← hsign]
    · rw [Spelling.literal, hfraction, hnegative]

/-! ## Finite doubles -/

/-- A word names no finite double, with or without a minus. -/
theorem readWord?_not_finite {cs : List Char} {x : Float} (h : readWord? cs = some x) :
    isFinite x = false ∧ isFinite (-x) = false := by
  unfold readWord? at h
  dsimp only at h
  split at h
  · cases h
    decide +kernel
  · split at h
    · cases h
      decide +kernel
    · cases h

/-- The finite doubles that a text can name are those of its spellings. -/
theorem readChars?_finite_iff {cs : List Char} {x : Float} :
    (readChars? cs = some x ∧ isFinite x = true) ↔
      ∃ s : Spelling, cs = s.chars ∧ isFinite s.toFloat = true ∧ x = s.toFloat := by
  constructor
  · rintro ⟨h, hfinite⟩
    unfold readChars? at h
    split at h
    · next l hl =>
      cases h
      obtain ⟨s, rfl, rfl⟩ := Literal.spelling_of_read? hl
      exact ⟨s, rfl, hfinite, rfl⟩
    · generalize readSign cs = split at h
      obtain ⟨negative, rest⟩ := split
      obtain ⟨y, hy, rfl⟩ := Option.map_eq_some_iff.mp h
      obtain ⟨hplus, hminus⟩ := readWord?_not_finite hy
      cases negative with
      | true => cases hminus.symm.trans hfinite
      | false => cases hplus.symm.trans hfinite
  · rintro ⟨s, rfl, hfinite, rfl⟩
    refine ⟨?_, hfinite⟩
    rw [readChars?, Literal.read?_spelling]
    rfl

end KubeLedger.Decimal
