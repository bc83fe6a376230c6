import Mathlib.Data.List.Nodup
import Mathlib.Data.List.TakeWhile
import KubeLedger.Quantity
import KubeLedger.Proofs.Spellings

/- Which texts are quantities, and of what. A quantity is written as a decimal literal and a suffix
   (`Quantity.Written`). The literal ends in a digit or in its point and no suffix does, so the end of
   the text tells the suffix, whatever letters the exponent has: what is written is split where it was
   put together (`splitSuffix_written`). Whatever is split is put together again
   (`splitSuffix_split`), so that a text is accepted exactly if, up to white space around it, it is
   written so and its literal is finite (`quantity_exact`). -/
namespace KubeLedger

/-! ## White space around a text -/

namespace Text

/-- A text is another one with white space around it. -/
def Pads (core cs : List Char) : Prop :=
  ∃ before after, (∀ c ∈ before ++ after, isBlank c = true) ∧ cs = before ++ (core ++ after)

/-- There is no white space at the ends of a text. -/
def Bare (cs : List Char) : Prop :=
  (∀ c ∈ cs.head?, isBlank c = false) ∧ ∀ c ∈ cs.getLast?, isBlank c = false

theorem dropWhile_pad {p : Char → Bool} {before core : List Char}
    (hbefore : ∀ c ∈ before, p c = true) (hcore : ∀ c ∈ core.head?, p c = false) :
    (before ++ core).dropWhile p = core := by
  rw [List.dropWhile_append_of_pos hbefore]
  cases core with
  | nil => rfl
  | cons c core =>
    have hc := hcore c rfl
    simp [hc]

theorem trimChars_pads (cs : List Char) : Pads (trimChars cs) cs := by
  have hfront := List.takeWhile_append_dropWhile (p := isBlank) (l := cs)
  have hback := List.takeWhile_append_dropWhile (p := isBlank) (l := (cs.dropWhile isBlank).reverse)
  refine ⟨cs.takeWhile isBlank, ((cs.dropWhile isBlank).reverse.takeWhile isBlank).reverse, ?_, ?_⟩
  · intro c hc
    rcases List.mem_append.mp hc with hc | hc
    · exact List.all_eq_true.mp List.all_takeWhile c hc
    · exact List.all_eq_true.mp List.all_takeWhile c (List.mem_reverse.mp hc)
  · rw [trimChars, ← List.reverse_append, hback, List.reverse_reverse, hfront]

theorem Pads.trimChars_eq {core cs : List Char} (h : Pads core cs) (hcore : Bare core) :
    trimChars cs = core := by
  obtain ⟨before, after, hblank, rfl⟩ := h
  obtain ⟨hbefore, hafter⟩ := List.forall_mem_append.mp hblank
  cases core with
  | nil =>
    have hall : ∀ c ∈ before ++ after, isBlank c = true := hblank
    rw [List.nil_append, trimChars, List.dropWhile_eq_nil_iff.mpr hall]
    rfl
  | cons c core =>
    have hfront : ∀ d ∈ ((c :: core) ++ after).head?, isBlank d = false := hcore.1
    have hback : ∀ d ∈ (c :: core).reverse.head?, isBlank d = false := by
      rw [List.head?_reverse]
      exact hcore.2
    rw [trimChars, dropWhile_pad hbefore hfront, List.reverse_append, dropWhile_pad _ hback,
      List.reverse_reverse]
    simpa using hafter

/-! ## Letters and digits -/

section Characters
variable {c : Char}

theorem isBlank_of_isDigit (h : c.isDigit = true) : isBlank c = false := by
  have hrange : 48 ≤ c.toNat ∧ c.toNat ≤ 57 := by
    simpa [Char.isDigit, UInt32.le_iff_toNat_le] using h
  simp only [isBlank, Bool.or_eq_false_iff, Bool.and_eq_false_iff, beq_eq_false_iff_ne,
    decide_eq_false_iff_not]
  omega

/-- Letters are not blank, and no literal has one at its start or its end. -/
theorem plain_of_isAlpha (h : c.isAlpha = true) :
    isBlank c = false ∧ c.isDigit = false ∧ c ≠ '.' ∧ c ≠ '-' ∧ c ≠ '+' := by
  change (decide (c.val ≥ 'A'.val ∧ c.val ≤ 'Z'.val) ||
    c.val ≥ 'a'.val && c.val ≤ 'z'.val) = true at h
  have hrange : 65 ≤ c.toNat ∧ c.toNat ≤ 90 ∨ 97 ≤ c.toNat ∧ c.toNat ≤ 122 := by
    simpa [UInt32.le_iff_toNat_le] using h
  refine ⟨?_, ?_, ?_, ?_, ?_⟩
  · simp only [isBlank, Bool.or_eq_false_iff, Bool.and_eq_false_iff, beq_eq_false_iff_ne,
      decide_eq_false_iff_not]
    omega
  · by_contra hdigit
    have hdigit : 48 ≤ c.toNat ∧ c.toNat ≤ 57 := by
      simpa [Char.isDigit, UInt32.le_iff_toNat_le] using hdigit
    omega
  all_goals
    rintro rfl
    cases h

theorem isAlpha_of_toLower (h : c.toLower.isAlpha = true) : c.isAlpha = true := by
  unfold Char.toLower at h
  split at h
  · next hupper =>
    have hupper : c.isUpper = true := decide_eq_true hupper
    show (c.isUpper || c.isLower) = true
    rw [hupper, Bool.true_or]
  · exact h

end Characters

end Text

namespace Quantity
open Decimal (Spelling isFinite signs)

/-! ## Written quantities -/

/-- All suffixes, with the empty one for a number without a suffix. -/
def suffixes : List Suffix := ⟨[], 1⟩ :: (binarySuffixes ++ decimalSuffixes)

/-- A quantity as it is written. -/
structure Written where
  number : Spelling
  suffix : Suffix
  suffix_mem : suffix ∈ suffixes

namespace Written

def chars (w : Written) : List Char := w.number.chars ++ w.suffix.text

def value (w : Written) : Float := w.number.toFloat * w.suffix.scale

end Written

/-! ## Suffixes -/

section Suffixes
variable {s t : Suffix}

theorem suffix_eq (hs : s ∈ suffixes) (ht : t ∈ suffixes) (h : s.text = t.text) : s = t := by
  have hnodup : (suffixes.map Suffix.text).Nodup := by decide
  exact List.inj_on_of_nodup_map hnodup hs ht h

/-- The last letter of a suffix tells its length, as that of a binary suffix is no decimal suffix. -/
theorem suffix_length_eq (hs : s ∈ suffixes) (ht : t ∈ suffixes)
    (h : s.text.getLast? = t.text.getLast?) : s.text.length = t.text.length := by
  have htexts : ∀ a ∈ suffixes.map Suffix.text, ∀ b ∈ suffixes.map Suffix.text,
      a.getLast? = b.getLast? → a.length = b.length := by decide
  exact htexts _ (List.mem_map_of_mem hs) _ (List.mem_map_of_mem ht) h

theorem suffix_letters (hs : s ∈ suffixes) : ∀ c ∈ s.text, c.isAlpha = true := by
  have htexts : ∀ a ∈ suffixes.map Suffix.text, a.all Char.isAlpha = true := by decide
  exact List.all_eq_true.mp (htexts _ (List.mem_map_of_mem hs))

/-- What stands before a suffix that is there is found once: a literal does not end in a letter. -/
theorem suffix_unique {d n : List Char} {c : Char} (hs : s ∈ suffixes) (ht : t ∈ suffixes)
    (hne : t.text ≠ []) (hd : d.getLast? = some c) (hc : c.isDigit = true ∨ c = '.')
    (h : d ++ s.text = n ++ t.text) : d = n ∧ s = t := by
  have hlast := congrArg List.getLast? h
  rw [List.getLast?_append, List.getLast?_append, List.getLast?_eq_some_getLast hne,
    Option.some_or] at hlast
  by_cases hempty : s.text = []
  · rw [hempty, List.getLast?_nil, Option.none_or, hd] at hlast
    have hletter := suffix_letters ht _ (List.getLast_mem hne)
    rw [← Option.some.inj hlast] at hletter
    obtain ⟨-, hdigit, hpoint, -⟩ := Text.plain_of_isAlpha hletter
    rcases hc with hc | hc
    · cases hc.symm.trans hdigit
    · exact absurd hc hpoint
  · rw [List.getLast?_eq_some_getLast hempty, Option.some_or] at hlast
    have hlength := suffix_length_eq hs ht (by
      rw [List.getLast?_eq_some_getLast hempty, List.getLast?_eq_some_getLast hne, hlast])
    obtain ⟨hnumber, htext⟩ := List.append_inj' h hlength
    exact ⟨hnumber, suffix_eq hs ht htext⟩

end Suffixes

/-! ## Splitting -/

theorem strip?_eq_some {ending cs n : List Char} : strip? ending cs = some n ↔ cs = n ++ ending := by
  unfold strip?
  split
  · next h =>
    obtain ⟨front, rfl⟩ := List.isSuffixOf_iff_suffix.mp h
    simp [eq_comm]
  · next h =>
    refine ⟨nofun, ?_⟩
    rintro rfl
    exact absurd (List.isSuffixOf_iff_suffix.mpr (List.suffix_append n ending)) h

/-- A text is split in front of a suffix that it ends in, or left whole if there is none that may be
taken off. -/
theorem splitSuffix_cases (cs : List Char) :
    (∃ s ∈ binarySuffixes ++ decimalSuffixes, ∃ n, cs = n ++ s.text ∧
      splitSuffix cs = (n, s.scale)) ∨
    splitSuffix cs = (cs, 1) ∧ ∀ s ∈ binarySuffixes ++ decimalSuffixes, ∀ n, cs = n ++ s.text →
      takesSuffix n = false := by
  unfold splitSuffix
  dsimp only
  generalize hbinary : binarySuffixes.findSome? _ = binary
  generalize hdecimal : decimalSuffixes.findSome? _ = decimal
  cases binary with
  | some r =>
    obtain ⟨s, hs, hr⟩ := List.exists_of_findSome?_eq_some hbinary
    obtain ⟨n, hn, rfl⟩ := Option.map_eq_some_iff.mp hr
    exact .inl ⟨s, List.mem_append_left _ hs, n, strip?_eq_some.mp hn, rfl⟩
  | none =>
    cases decimal with
    | some r =>
      obtain ⟨s, hs, hr⟩ := List.exists_of_findSome?_eq_some hdecimal
      obtain ⟨n, hn, rfl⟩ := Option.map_eq_some_iff.mp hr
      exact .inl ⟨s, List.mem_append_right _ hs, n,
        strip?_eq_some.mp (Option.filter_eq_some_iff.mp hn).1, rfl⟩
    | none =>
      refine .inr ⟨rfl, fun s hs n hn => ?_⟩
      have hstrip : strip? s.text cs = some n := strip?_eq_some.mpr hn
      rcases List.mem_append.mp hs with hs | hs
      · have hnone := List.findSome?_eq_none_iff.mp hbinary s hs
        simp [hstrip] at hnone
      · have hnone := List.findSome?_eq_none_iff.mp hdecimal s hs
        simpa [hstrip] using hnone

theorem splitSuffix_written (w : Written) :
    splitSuffix w.chars = (w.number.chars, w.suffix.scale) := by
  obtain ⟨number, suffix, hmem⟩ := w
  obtain ⟨c, hlast, hc⟩ := number.getLast?_chars
  rcases splitSuffix_cases (number.chars ++ suffix.text) with
    ⟨s, hs, n, hchars, hsplit⟩ | ⟨hsplit, hnone⟩
  · have hne : s.text ≠ [] := by
      have htexts : ∀ a ∈ (binarySuffixes ++ decimalSuffixes).map Suffix.text, a ≠ [] := by decide
      exact htexts _ (List.mem_map_of_mem hs)
    obtain ⟨rfl, rfl⟩ := suffix_unique hmem (List.mem_cons_of_mem _ hs) hne hlast hc hchars
    exact hsplit
  · -- the number does not end in the letter of an exponent, so no suffix behind it was passed over
    have htakes : takesSuffix number.chars = true := by
      rw [takesSuffix, hlast]
      rcases hc with hc | rfl
      · simp only [Bool.and_eq_true, bne_iff_ne]
        constructor <;> rintro rfl <;> cases hc
      · rfl
    rcases List.mem_cons.mp hmem with rfl | htable
    · rw [List.append_nil] at hsplit
      rw [Written.chars, List.append_nil]
      exact hsplit
    · cases htakes.symm.trans (hnone suffix htable number.chars rfl)

/-- Whatever is split is put together again. -/
theorem splitSuffix_split (cs : List Char) :
    ∃ s ∈ suffixes, cs = (splitSuffix cs).1 ++ s.text ∧ (splitSuffix cs).2 = s.scale := by
  rcases splitSuffix_cases cs with ⟨s, hs, n, hchars, hsplit⟩ | ⟨hsplit, -⟩
  · rw [hsplit]
    exact ⟨s, List.mem_cons_of_mem _ hs, hchars, rfl⟩
  · rw [hsplit]
    exact ⟨⟨[], 1⟩, List.mem_cons_self, (List.append_nil cs).symm, rfl⟩

theorem Written.eq_of_chars {v w : Written} (h : v.chars = w.chars) :
    v.number.chars = w.number.chars ∧ v.suffix = w.suffix := by
  have hsplit := congrArg splitSuffix h
  rw [splitSuffix_written, splitSuffix_written] at hsplit
  have hnumber : v.number.chars = w.number.chars := congrArg Prod.fst hsplit
  refine ⟨hnumber, suffix_eq v.suffix_mem w.suffix_mem ?_⟩
  unfold Written.chars at h
  rw [hnumber] at h
  exact List.append_cancel_left h

/-! ## Reading -/

/-- A quantity has no white space at its ends. -/
theorem Written.bare (w : Written) : Text.Bare w.chars := by
  obtain ⟨number, suffix, hmem⟩ := w
  have hplain : ∀ c : Char, c.isDigit = true ∨ c = '.' → Text.isBlank c = false := by
    rintro c (hc | rfl)
    · exact Text.isBlank_of_isDigit hc
    · decide
  constructor
  · obtain ⟨c, rest, hchars, hc⟩ := number.chars_eq_append
    intro d hd
    simp only [Written.chars, hchars, List.append_assoc, List.cons_append] at hd
    have hsign := number.sign_mem
    simp only [signs, List.mem_cons, List.not_mem_nil, or_false] at hsign
    obtain hsign | hsign | hsign := hsign
    all_goals
      rw [hsign] at hd
      cases hd
    · exact hplain c hc
    · decide
    · decide
  · obtain ⟨c, hlast, hc⟩ := number.getLast?_chars
    intro d hd
    simp only [Written.chars, List.getLast?_append, hlast] at hd
    by_cases hempty : suffix.text = []
    · rw [hempty] at hd
      cases hd
      exact hplain c hc
    · rw [List.getLast?_eq_some_getLast hempty] at hd
      cases hd
      exact (Text.plain_of_isAlpha (suffix_letters hmem _ (List.getLast_mem hempty))).1

theorem readChars?_iff {cs : List Char} {x : Float} :
    readChars? cs = some x ↔ ∃ w : Written, Text.Pads w.chars cs ∧
      isFinite w.number.toFloat = true ∧ x = w.value := by
  constructor
  · intro h
    obtain ⟨s, hs, hchars, hscale⟩ := splitSuffix_split (Text.trimChars cs)
    unfold readChars? at h
    generalize splitSuffix (Text.trimChars cs) = split at h hchars hscale
    obtain ⟨number, scale⟩ := split
    dsimp only at h hchars hscale
    cases hread : Decimal.readChars? number with
    | none => simp [hread] at h
    | some y =>
      by_cases hfinite : isFinite y = true
      · simp only [hread, hfinite, if_true, Option.some.injEq] at h
        obtain ⟨d, rfl, hd, rfl⟩ := Decimal.readChars?_finite_iff.mp ⟨hread, hfinite⟩
        refine ⟨⟨d, s, hs⟩, ?_, hd, ?_⟩
        · show Text.Pads (d.chars ++ s.text) cs
          rw [← hchars]
          exact Text.trimChars_pads cs
        · rw [← h, hscale]
          rfl
      · simp [hread, hfinite] at h
  · rintro ⟨w, hpads, hfinite, rfl⟩
    obtain ⟨hread, -⟩ := Decimal.readChars?_finite_iff.mpr ⟨w.number, rfl, hfinite, rfl⟩
    simp only [readChars?, hpads.trimChars_eq w.bare, splitSuffix_written, hread, hfinite, if_true]
    rfl

/-- The words for infinities and for what is not a number. -/
def words : List (List Char) :=
  [['i', 'n', 'f'], ['i', 'n', 'f', 'i', 'n', 'i', 't', 'y'], ['n', 'a', 'n']]

section Words
variable {sign word : List Char} {s : Suffix}

theorem word_letters (hword : word.map Char.toLower ∈ words) : ∀ c ∈ word, c.isAlpha = true := by
  have hletters : ∀ a ∈ words, a.all Char.isAlpha = true := by decide
  intro c hc
  exact Text.isAlpha_of_toLower
    (List.all_eq_true.mp (hletters _ hword) _ (List.mem_map_of_mem hc))

theorem word_ne_nil (hword : word.map Char.toLower ∈ words) : word ≠ [] := by
  rintro rfl
  revert hword
  decide

/-- Behind its sign a quantity begins with a digit or with a point, and a word with a letter. -/
theorem word_not_written (hsign : sign ∈ signs) (hword : word.map Char.toLower ∈ words)
    (w : Written) : w.chars ≠ sign ++ (word ++ s.text) := by
  intro h
  obtain ⟨c, rest, hchars, hc⟩ := w.number.chars_eq_append
  obtain ⟨d, tail, rfl⟩ := List.exists_cons_of_ne_nil (word_ne_nil hword)
  obtain ⟨-, hdigit, hpoint, hd⟩ :=
    Text.plain_of_isAlpha (word_letters hword d List.mem_cons_self)
  have hnumber : Decimal.readSign w.chars =
      (decide (w.number.sign = ['-']), c :: rest ++ w.suffix.text) := by
    rw [Written.chars, hchars, List.append_assoc]
    refine Decimal.readSign_append w.number.sign_mem fun e he => ?_
    obtain rfl : c = e := Option.some.inj he
    rcases hc with hc | rfl
    · constructor <;> rintro rfl <;> cases hc
    · decide
  have hletter : Decimal.readSign (sign ++ (d :: tail ++ s.text)) =
      (decide (sign = ['-']), d :: tail ++ s.text) := by
    refine Decimal.readSign_append hsign fun e he => ?_
    obtain rfl : d = e := Option.some.inj he
    exact hd
  rw [h, hletter, Prod.mk.injEq] at hnumber
  obtain rfl : d = c := (List.cons.inj hnumber.2).1
  rcases hc with hc | hc
  · cases hc.symm.trans hdigit
  · exact hpoint hc

/-- A word has no white space at its ends. -/
theorem word_bare (hsign : sign ∈ signs) (hword : word.map Char.toLower ∈ words)
    (hs : s ∈ suffixes) : Text.Bare (sign ++ (word ++ s.text)) := by
  have hsigns : ∀ a ∈ signs, a.any Text.isBlank = false := by decide
  have hall : ∀ c ∈ sign ++ (word ++ s.text), Text.isBlank c = false := by
    intro c hc
    rcases List.mem_append.mp hc with hc | hc
    · exact Bool.eq_false_iff.mpr (List.any_eq_false.mp (hsigns _ hsign) c hc)
    · rcases List.mem_append.mp hc with hc | hc
      · exact (Text.plain_of_isAlpha (word_letters hword c hc)).1
      · exact (Text.plain_of_isAlpha (suffix_letters hs c hc)).1
  exact ⟨fun c hc => hall c (List.mem_of_mem_head? hc),
    fun c hc => hall c (List.mem_of_getLast? hc)⟩

end Words

theorem read_ok_iff {q : String} {x : Float} :
    read q = .ok x ↔ readChars? q.toList = some x := by
  unfold read read?
  cases readChars? q.toList <;> simp

/-- A text that is no quantity is given back. -/
theorem read_error_of {q : String} (h : ∀ x, read q ≠ .ok x) : read q = .error ⟨q⟩ := by
  unfold read at h ⊢
  split at h
  · next x hx => exact absurd rfl (h x)
  · rfl

/-- Quantities are split in one way and accepted exactly. What is written is split into its literal
and the scale of its suffix, so no text is written in two ways. A text has a value exactly if, with
white space around it or without, it is written as a quantity whose literal is finite, and its value
is what that amounts to; any other text is refused, and so are the words for infinities and for what
is not a number, in any case, with a sign and a suffix or without. -/
theorem quantity_exact :
    (∀ w : Written, splitSuffix w.chars = (w.number.chars, w.suffix.scale)) ∧
    (∀ v w : Written, v.chars = w.chars → v.number.chars = w.number.chars ∧ v.suffix = w.suffix) ∧
    (∀ q x, read q = .ok x ↔ ∃ w : Written, Text.Pads w.chars q.toList ∧
      isFinite w.number.toFloat = true ∧ x = w.value) ∧
    (∀ q, (∀ w : Written, Text.Pads w.chars q.toList → isFinite w.number.toFloat = false) →
      read q = .error ⟨q⟩) ∧
    ∀ sign ∈ signs, ∀ word, word.map Char.toLower ∈ words → ∀ s ∈ suffixes,
      ∀ q, Text.Pads (sign ++ (word ++ s.text)) q.toList → read q = .error ⟨q⟩ := by
  refine ⟨splitSuffix_written, fun v w => Written.eq_of_chars, fun q x => ?_, fun q hnone => ?_,
    fun sign hsign word hword s hs q hpads => ?_⟩
  · rw [read_ok_iff, readChars?_iff]
  · refine read_error_of fun x hx => ?_
    obtain ⟨w, hw, hfinite, -⟩ := readChars?_iff.mp (read_ok_iff.mp hx)
    cases hfinite.symm.trans (hnone w hw)
  · refine read_error_of fun x hx => ?_
    obtain ⟨w, hw, -, -⟩ := readChars?_iff.mp (read_ok_iff.mp hx)
    have hsame := (hw.trimChars_eq w.bare).symm.trans (hpads.trimChars_eq (word_bare hsign hword hs))
    exact word_not_written hsign hword w hsame

/-- A number with an exponent, in the suffix of quintillions. -/
def exa : Written where
  number := {
    sign := ['+']
    whole := ['1', '2']
    fraction := some []
    exponent := some {
      letter := 'e'
      sign := ['-']
      digits := ['3']
      letter_mem := by decide
      sign_mem := by decide
      isDigit := by simp
      digits_ne := by decide }
    sign_mem := by decide
    isDigit := by simp
    digits_ne := by decide }
  suffix := ⟨['E'], 1e18⟩
  suffix_mem := List.mem_of_getElem? (i := 15) rfl

/-- It applies to a number whose exponent stands next to the exa suffix, and to an infinity. -/
theorem quantity_exact_exa :
    splitSuffix "+12.e-3E".toList = ("+12.e-3".toList, 1e18) ∧
    read " +12.e-3E\n" = .ok exa.value ∧ read "-InfinityEi" = .error ⟨"-InfinityEi"⟩ := by
  obtain ⟨hsplit, -, hread, -, hwords⟩ := quantity_exact
  refine ⟨hsplit exa, (hread _ _).mpr ⟨exa, ⟨[' '], ['\n'], by simp [Text.isBlank], rfl⟩, ?_, rfl⟩, ?_⟩
  · decide +kernel
  · have hbinary : (⟨['E', 'i'], 1152921504606846976⟩ : Suffix) ∈ suffixes :=
      List.mem_of_getElem? (i := 6) rfl
    exact hwords ['-'] (by decide) "Infinity".toList (by decide) _ hbinary _
      ⟨[], [], by simp, rfl⟩

end Quantity

end KubeLedger
