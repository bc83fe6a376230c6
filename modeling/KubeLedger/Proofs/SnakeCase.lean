import KubeLedger.Proofs.LetterCase
import KubeLedger.Text.Case

/- Snake case adds separators and loses nothing but case. Without its underscores, the snake case of a
   text is the text without separators, in lower case (`filter_snakeFrom`). A capital that has no lower
   case form stays as it is, and no other capital is left (`filter_isUpper_snakeFrom`).

   A second pass sees different neighbours. Where capitals have lower case forms it finds nothing to
   do, but an unpaired capital that follows a capital was not the start of a word, and may be one
   behind, or in front of, the small letter that its neighbour has become (`Unsettled`). What carries
   the induction is the character that the second pass finds in front: the last one that was made of
   the previous character (`trace`). -/
namespace KubeLedger.Text

/-! ## Separators -/

/-- What stands between words. -/
def isSeparator (c : Char) : Bool := c == '_' || c == '-' || c == ' '

section Separators
variable {c : Char}

theorem isSeparator_iff : isSeparator c = true ↔ c = '_' ∨ c = '-' ∨ c = ' ' := by
  simp [isSeparator, or_assoc]

theorem isSeparator_of_isUpper (h : isUpper c = true) : isSeparator c = false := by
  refine Bool.eq_false_iff.mpr fun hseparator => ?_
  rcases isSeparator_iff.mp hseparator with rfl | rfl | rfl <;> revert h <;> decide +kernel

theorem isSeparator_of_isLower (h : isLower c = true) : isSeparator c = false := by
  refine Bool.eq_false_iff.mpr fun hseparator => ?_
  rcases isSeparator_iff.mp hseparator with rfl | rfl | rfl <;> revert h <;> decide +kernel

end Separators

theorem dotAbove_plain : isSeparator dotAbove = false ∧ isUpper dotAbove = false ∧
    isLower dotAbove = false ∧ dotAbove.isDigit = false := by
  decide +kernel

theorem small_i : isLower 'i' = true := by decide +kernel

/-- The lower case form of a capital has no separators. -/
theorem isSeparator_of_mem_lower {c d : Char} (h : isUpper c = true) (hd : d ∈ lower c) :
    isSeparator d = false := by
  rcases lower_cases c with hlower | ⟨e, hlower, he⟩ | ⟨-, hlower⟩
  · rw [hlower, List.mem_singleton] at hd
    exact hd ▸ isSeparator_of_isUpper h
  · rw [hlower, List.mem_singleton] at hd
    exact hd ▸ isSeparator_of_isLower he
  · rw [hlower] at hd
    rcases List.mem_cons.mp hd with rfl | hd
    · exact isSeparator_of_isLower small_i
    · exact List.mem_singleton.mp hd ▸ dotAbove_plain.1

/-! ## Starts of words -/

section Words
variable {p : Char} {next : Option Char}

theorem startsWord_eq (p : Char) (next : Option Char) : startsWord (some p) next =
    (!isSeparator p && (isLower p || p.isDigit || isUpper p && next.any isLower)) := by
  have hseparator : (p = '_' ∨ p = '-' ∨ p = ' ') ↔ isSeparator p = true := isSeparator_iff.symm
  simp only [startsWord, hseparator]
  cases isSeparator p <;> cases isLower p <;> cases p.isDigit <;> cases isUpper p <;> simp

theorem startsWord_of_isUpper (h : isUpper p = true) :
    startsWord (some p) next = next.any isLower := by
  simp [startsWord_eq, isSeparator_of_isUpper h, isLower_of_isUpper h, isDigit_of_isUpper h, h]

theorem startsWord_of_isLower (h : isLower p = true) : startsWord (some p) next = true := by
  simp [startsWord_eq, isSeparator_of_isLower h, h]

theorem startsWord_of_isSeparator (h : isSeparator p = true) : startsWord (some p) next = false := by
  simp [startsWord_eq, h]

theorem startsWord_dotAbove : startsWord (some dotAbove) next = false := by
  obtain ⟨-, hupper, hlower, hdigit⟩ := dotAbove_plain
  simp [startsWord_eq, hupper, hlower, hdigit]

/-- Only a capital in front makes it matter what follows. -/
theorem startsWord_congr (h : isUpper p = false) (next' : Option Char) :
    startsWord (some p) next = startsWord (some p) next' := by
  simp [startsWord_eq, h]

end Words

/-! ## Without separators -/

/-- A character in lower case, if it is a capital. -/
def lowered (c : Char) : List Char := if isUpper c then lower c else [c]

theorem snakeChar_of_isUpper {c : Char} (h : isUpper c = true) (p next : Option Char) :
    snakeChar p c next = (if startsWord p next then ['_'] else []) ++ lower c := by
  unfold snakeChar
  rw [if_pos h]
  split <;> rfl

theorem filter_snakeChar (p : Option Char) (c : Char) (next : Option Char) :
    (snakeChar p c next).filter (· != '_') = if isSeparator c then [] else lowered c := by
  by_cases hupper : isUpper c = true
  · have hlower : (lower c).filter (· != '_') = lower c := by
      refine List.filter_eq_self.mpr fun d hd => bne_iff_ne.mpr ?_
      rintro rfl
      cases isSeparator_of_mem_lower hupper hd
    have hmark : (if startsWord p next then ['_'] else []).filter (· != '_') = [] := by
      split <;> rfl
    rw [snakeChar_of_isUpper hupper, List.filter_append, hmark, hlower,
      isSeparator_of_isUpper hupper]
    simp [lowered, hupper]
  · by_cases hseparator : isSeparator c = true
    · rcases isSeparator_iff.mp hseparator with rfl | rfl | rfl <;>
        simp [snakeChar, hupper, isSeparator]
    · have hplain := mt isSeparator_iff.mpr hseparator
      simp only [not_or] at hplain
      simp [snakeChar, lowered, hupper, hseparator, hplain]

/-- Without its underscores, the snake case of a text is the text without separators in lower case. -/
theorem filter_snakeFrom (p : Option Char) (cs : List Char) :
    (snakeFrom p cs).filter (· != '_') = (cs.filter (!isSeparator ·)).flatMap lowered := by
  induction cs generalizing p with
  | nil => rfl
  | cons c rest ih =>
    rw [snakeFrom, List.filter_append, filter_snakeChar, ih]
    cases hseparator : isSeparator c <;> simp [hseparator]

/-! ## What is left -/

theorem mem_snakeChar {p next : Option Char} {c d : Char} (hd : d ∈ snakeChar p c next) :
    d ≠ '-' ∧ d ≠ ' ' := by
  have hseparators : ∀ e, isSeparator e = false → e ≠ '-' ∧ e ≠ ' ' := by
    rintro e he
    constructor <;> rintro rfl <;> cases he
  by_cases hupper : isUpper c = true
  · rw [snakeChar_of_isUpper hupper] at hd
    rcases List.mem_append.mp hd with hd | hd
    · split at hd
      · rw [List.mem_singleton.mp hd]
        decide
      · cases hd
    · exact hseparators d (isSeparator_of_mem_lower hupper hd)
  · unfold snakeChar at hd
    rw [if_neg hupper] at hd
    split at hd
    · rw [List.mem_singleton.mp hd]
      decide
    · next hplain =>
      rw [List.mem_singleton.mp hd]
      exact not_or.mp hplain

theorem mem_snakeFrom {p : Option Char} {cs : List Char} {d : Char} (hd : d ∈ snakeFrom p cs) :
    d ≠ '-' ∧ d ≠ ' ' := by
  induction cs generalizing p with
  | nil => cases hd
  | cons c rest ih =>
    rcases List.mem_append.mp hd with hd | hd
    · exact mem_snakeChar hd
    · exact ih hd

theorem filter_isUpper_snakeChar (p : Option Char) (c : Char) (next : Option Char) :
    (snakeChar p c next).filter isUpper = if isUnpaired c then [c] else [] := by
  have hmark : isUpper '_' = false := by decide +kernel
  by_cases hupper : isUpper c = true
  · have hfront : (if startsWord p next then ['_'] else []).filter isUpper = [] := by
      split <;> simp [hmark]
    rw [snakeChar_of_isUpper hupper, List.filter_append, hfront, List.nil_append]
    cases hunpaired : isUnpaired c with
    | true => simp [lower_of_unpaired hunpaired, hupper]
    | false =>
      rcases lower_of_paired hupper hunpaired with ⟨⟨d, hlower, hd⟩, -⟩ | ⟨-, hlower⟩
      · simp [hlower, isUpper_of_isLower hd]
      · simp [hlower, isUpper_of_isLower small_i, dotAbove_plain.2.1]
  · have hpaired : isUnpaired c = false := by simp [isUnpaired, hupper]
    simp only [snakeChar, hupper, hpaired, Bool.false_eq_true, if_false]
    split <;> simp [hmark, hupper]

/-- The capitals that are left are those without a lower case form. -/
theorem filter_isUpper_snakeFrom (p : Option Char) (cs : List Char) :
    (snakeFrom p cs).filter isUpper = cs.filter isUnpaired := by
  induction cs generalizing p with
  | nil => rfl
  | cons c rest ih =>
    rw [snakeFrom, List.filter_append, filter_isUpper_snakeChar, ih, List.filter_cons]
    cases isUnpaired c <;> rfl

/-! ## A second pass -/

theorem snakeChar_of_plain {c : Char} (hupper : isUpper c = false) (hmark : c ≠ '-' ∧ c ≠ ' ')
    (p next : Option Char) : snakeChar p c next = [c] := by
  simp [snakeChar, hupper, hmark]

theorem snakeChar_of_isLower {c : Char} (h : isLower c = true) (p next : Option Char) :
    snakeChar p c next = [c] := by
  refine snakeChar_of_plain (isUpper_of_isLower h) ?_ p next
  constructor <;> rintro rfl <;> revert h <;> decide +kernel

theorem snakeChar_underscore (p next : Option Char) : snakeChar p '_' next = ['_'] :=
  snakeChar_of_plain (by decide +kernel) (by decide) p next

theorem snakeChar_unpaired_iff {c : Char} (h : isUnpaired c = true) {p next : Option Char} :
    snakeChar p c next = [c] ↔ startsWord p next = false := by
  rw [snakeChar_of_isUpper (isUpper_of_isUnpaired h), lower_of_unpaired h]
  cases startsWord p next <;> simp

theorem snakeChar_ne_nil (p : Option Char) (c : Char) (next : Option Char) :
    snakeChar p c next ≠ [] := by
  have hlower : lower c ≠ [] := by
    rcases lower_cases c with h | ⟨d, h, -⟩ | ⟨-, h⟩ <;> simp [h]
  unfold snakeChar
  repeat' split
  all_goals simp [hlower]

theorem length_snakeFrom (p : Option Char) (cs : List Char) :
    cs.length ≤ (snakeFrom p cs).length := by
  induction cs generalizing p with
  | nil => exact Nat.le_refl 0
  | cons c rest ih =>
    have hone := List.length_pos_iff.mpr (snakeChar_ne_nil p c rest.head?)
    have hrest := ih (some c)
    rw [snakeFrom, List.length_append, List.length_cons]
    omega

/-- A text stays as it is if each of its characters does. -/
theorem snakeFrom_cons_iff {p : Option Char} {c : Char} {rest : List Char} :
    snakeFrom p (c :: rest) = c :: rest ↔
      snakeChar p c rest.head? = [c] ∧ snakeFrom (some c) rest = rest := by
  rw [snakeFrom]
  constructor
  · intro h
    obtain ⟨d, ds, hchars⟩ := List.exists_cons_of_ne_nil (snakeChar_ne_nil p c rest.head?)
    rw [hchars, List.cons_append] at h
    obtain ⟨rfl, hrest⟩ := List.cons.inj h
    -- the rest does not get shorter, so there is no room for a second character
    have hlength := congrArg List.length hrest
    rw [List.length_append] at hlength
    have hgrows := length_snakeFrom (some d) rest
    have hnone : ds = [] := List.length_eq_zero_iff.mp (by omega)
    rw [hnone, List.nil_append] at hrest
    exact ⟨by rw [hchars, hnone], hrest⟩
  · rintro ⟨hchar, hrest⟩
    rw [hchar, hrest, List.singleton_append]

/-- The last of the characters that are made of one. -/
def trace (c : Char) : Char :=
  if isUpper c then (lower c).getLast?.getD c else if isSeparator c then '_' else c

theorem trace_of_unpaired {c : Char} (h : isUnpaired c = true) : trace c = c := by
  simp [trace, isUpper_of_isUnpaired h, lower_of_unpaired h]

theorem trace_of_plain {c : Char} (hupper : isUpper c = false) (hmark : c ≠ '-' ∧ c ≠ ' ') :
    trace c = c := by
  by_cases hunderscore : c = '_'
  · subst hunderscore
    simp [trace, hupper]
  · simp [trace, hupper, isSeparator, hunderscore, hmark]

/-- Lower case forms are not changed again, and what follows them finds the last of their
characters. -/
theorem snakeFrom_lower_iff {c : Char} (hupper : isUpper c = true) (hpaired : isUnpaired c = false)
    {q : Option Char} {cs : List Char} :
    snakeFrom q (lower c ++ cs) = lower c ++ cs ↔ snakeFrom (some (trace c)) cs = cs := by
  rcases lower_of_paired hupper hpaired with ⟨⟨d, hlower, hd⟩, -⟩ | ⟨-, hlower⟩
  · simp [trace, hupper, hlower, snakeFrom_cons_iff, snakeChar_of_isLower hd]
  · have hdot : ∀ p next, snakeChar p dotAbove next = [dotAbove] :=
      snakeChar_of_plain dotAbove_plain.2.1 (by decide)
    simp [trace, hupper, hlower, snakeFrom_cons_iff, snakeChar_of_isLower small_i, hdot]

/-- A second pass finds a character as the first one left it, unless it is an unpaired capital that
starts a word between its new neighbours and did not between the old ones. -/
theorem snakeFrom_again_cons {p : Option Char} {c : Char} {rest : List Char} :
    snakeFrom (p.map trace) (snakeFrom p (c :: rest)) = snakeFrom p (c :: rest) ↔
      (isUnpaired c = true → startsWord p rest.head? = true ∨
        startsWord (p.map trace) (snakeFrom (some c) rest).head? = false) ∧
      snakeFrom (some (trace c)) (snakeFrom (some c) rest) = snakeFrom (some c) rest := by
  rw [snakeFrom]
  by_cases hupper : isUpper c = true
  · rw [snakeChar_of_isUpper hupper]
    cases hunpaired : isUnpaired c with
    | true =>
      rw [lower_of_unpaired hunpaired, trace_of_unpaired hunpaired]
      cases hstarts : startsWord p rest.head? with
      | true =>
        have hfirst : startsWord (some '_') (snakeFrom (some c) rest).head? = false :=
          startsWord_of_isSeparator rfl
        simp [snakeFrom_cons_iff, snakeChar_underscore, snakeChar_unpaired_iff hunpaired, hfirst]
      | false => simp [snakeFrom_cons_iff, snakeChar_unpaired_iff hunpaired]
    | false =>
      cases startsWord p rest.head? <;>
        simp [snakeFrom_cons_iff, snakeChar_underscore, snakeFrom_lower_iff hupper hunpaired]
  · have hpaired : isUnpaired c = false := by simp [isUnpaired, hupper]
    have hplain : isUpper c = false := by simpa using hupper
    by_cases hmark : c = '-' ∨ c = ' '
    · have htrace : trace c = '_' := by
        rcases hmark with rfl | rfl <;> simp [trace, hplain, isSeparator]
      have hchar : snakeChar p c rest.head? = ['_'] := by simp [snakeChar, hplain, hmark]
      simp [hchar, hpaired, htrace, snakeFrom_cons_iff, snakeChar_underscore]
    · have htrace := trace_of_plain hplain (not_or.mp hmark)
      have hchar := snakeChar_of_plain hplain (not_or.mp hmark)
      simp [hchar, hpaired, htrace, snakeFrom_cons_iff]

/-! ## Where it finds something to do -/

/-- Two neighbouring capitals of a text, the second unpaired and not in front of a lower case letter.
What the first one becomes lets the second one start a word, or the first is unpaired too and what
follows the second becomes a lower case letter right behind it. -/
def Unsettled (p c : Char) (rest : List Char) : Prop :=
  isUpper p = true ∧ isUnpaired c = true ∧ rest.head?.any isLower = false ∧
    (isUnpaired p = false ∧ p ≠ 'İ' ∨
      isUnpaired p = true ∧ ∃ n after, rest = n :: after ∧ isUpper n = true ∧
        isUnpaired n = false ∧ after.head?.any isLower = false)

section Neighbours
variable {p c : Char} {rest : List Char}

/-- What comes to stand behind an unpaired capital is a lower case letter if it was one, or if it was
made of a capital that starts no word. -/
theorem head?_snakeFrom_isLower (hc : isUpper c = true) (hrest : rest.head?.any isLower = false) :
    (snakeFrom (some c) rest).head?.any isLower = true ↔
      ∃ n after, rest = n :: after ∧ isUpper n = true ∧ isUnpaired n = false ∧
        after.head?.any isLower = false := by
  have hunderscore : isLower '_' = false := by decide +kernel
  cases rest with
  | nil => simp [snakeFrom]
  | cons n after =>
    have hn : isLower n = false := by simpa using hrest
    have hnext : (∃ m more, n :: after = m :: more ∧ isUpper m = true ∧ isUnpaired m = false ∧
        more.head?.any isLower = false) ↔
          isUpper n = true ∧ isUnpaired n = false ∧ after.head?.any isLower = false := by
      constructor
      · rintro ⟨_, _, ⟨⟩, h⟩
        exact h
      · exact fun h => ⟨n, after, rfl, h⟩
    rw [hnext, snakeFrom]
    by_cases hupper : isUpper n = true
    · rw [snakeChar_of_isUpper hupper, startsWord_of_isUpper hc]
      cases hstarts : after.head?.any isLower with
      | true => simp [hunderscore]
      | false =>
        cases hunpaired : isUnpaired n with
        | true => simp [lower_of_unpaired hunpaired, hn]
        | false =>
          rcases lower_of_paired hupper hunpaired with ⟨⟨d, hlower, hd⟩, -⟩ | ⟨-, hlower⟩
          · simp [hlower, hd, hupper]
          · simp [hlower, small_i, hupper]
    · by_cases hmark : n = '-' ∨ n = ' '
      · simp [snakeChar, hupper, hmark, hunderscore]
      · simp [snakeChar, hupper, hmark, hn]

theorem unsettled_iff (hc : isUnpaired c = true) :
    Unsettled p c rest ↔ startsWord (some p) rest.head? = false ∧
      startsWord (some (trace p)) (snakeFrom (some c) rest).head? = true := by
  by_cases hupper : isUpper p = true
  · rw [startsWord_of_isUpper hupper]
    cases hunpaired : isUnpaired p with
    | true =>
      rw [trace_of_unpaired hunpaired, startsWord_of_isUpper hupper]
      constructor
      · rintro ⟨-, -, hrest, ⟨hpaired, -⟩ | ⟨-, hnext⟩⟩
        · cases hpaired.symm.trans hunpaired
        · exact ⟨hrest, (head?_snakeFrom_isLower (isUpper_of_isUnpaired hc) hrest).mpr hnext⟩
      · rintro ⟨hrest, hnext⟩
        exact ⟨hupper, hc, hrest, .inr ⟨hunpaired,
          (head?_snakeFrom_isLower (isUpper_of_isUnpaired hc) hrest).mp hnext⟩⟩
    | false =>
      rcases lower_of_paired hupper hunpaired with ⟨⟨d, hlower, hd⟩, hne⟩ | ⟨rfl, hlower⟩
      · have htrace : trace p = d := by simp [trace, hupper, hlower]
        simp [Unsettled, hupper, hc, hunpaired, hne, htrace, startsWord_of_isLower hd]
      · have htrace : trace 'İ' = dotAbove := by simp [trace, hupper, hlower]
        simp [Unsettled, hunpaired, htrace, startsWord_dotAbove]
  · have hplain : isUpper p = false := by simpa using hupper
    refine ⟨fun h => absurd h.1 hupper, ?_⟩
    rintro ⟨hold, hnew⟩
    cases hseparator : isSeparator p with
    | true =>
      have htrace : trace p = '_' := by simp [trace, hplain, hseparator]
      rw [htrace, startsWord_of_isSeparator rfl] at hnew
      cases hnew
    | false =>
      have htrace : trace p = p := by simp [trace, hplain, hseparator]
      rw [htrace, startsWord_congr hplain rest.head?] at hnew
      cases hold.symm.trans hnew

end Neighbours

/-- A second pass leaves a text alone exactly if no two neighbours are unsettled. -/
theorem snakeFrom_again_iff (p : Option Char) (cs : List Char) :
    snakeFrom (p.map trace) (snakeFrom p cs) = snakeFrom p cs ↔
      ∀ q c rest, q :: c :: rest <:+ p.toList ++ cs → ¬Unsettled q c rest := by
  induction cs generalizing p with
  | nil =>
    refine ⟨fun _ q c rest h => ?_, fun _ => rfl⟩
    have hlength := h.length_le
    cases p <;> simp at hlength
  | cons c rest ih =>
    have hlater := ih (some c)
    rw [Option.map_some] at hlater
    rw [snakeFrom_again_cons, hlater]
    cases p with
    | none => simp [startsWord]
    | some a =>
      have hhead : (isUnpaired c = true → startsWord (some a) rest.head? = true ∨
          startsWord (some (trace a)) (snakeFrom (some c) rest).head? = false) ↔
            ¬Unsettled a c rest := by
        cases hunpaired : isUnpaired c with
        | true =>
          rw [unsettled_iff hunpaired]
          cases startsWord (some a) rest.head? <;> simp
        | false => simp [Unsettled, hunpaired]
      rw [Option.map_some, hhead]
      simp only [Option.toList_some, List.singleton_append, List.suffix_cons_iff, List.cons.injEq]
      constructor
      · rintro ⟨hfirst, hlater⟩ q d after (⟨rfl, rfl, rfl⟩ | hsuffix)
        · exact hfirst
        · exact hlater q d after (by simpa [List.suffix_cons_iff] using hsuffix)
      · intro h
        exact ⟨h a c rest (.inl ⟨rfl, rfl, rfl⟩), fun q d after hsuffix =>
          h q d after (.inr (by simpa [List.suffix_cons_iff] using hsuffix))⟩

/-! ## Texts -/

theorem toList_snake (s : String) : (snake s).toList = snakeFrom none s.toList := String.toList_ofList

theorem snake_again_iff (s : String) : snake (snake s) = snake s ↔
    ∀ p c rest, p :: c :: rest <:+ s.toList → ¬Unsettled p c rest := by
  have hagain := snakeFrom_again_iff none s.toList
  rw [Option.map_none, Option.toList_none, List.nil_append] at hagain
  rw [← hagain, ← String.toList_inj, toList_snake, toList_snake]

/-- Only separators are added to the lower case of a text, and nothing is dropped or reordered. Its
snake case has no hyphens and no blanks, and of capitals those, in order, that have no lower case form.
A second pass leaves it alone exactly if no two neighbours are unsettled, so it does if all capitals
have lower case forms, and a third pass always does. -/
theorem snake_normalizes (s : String) :
    (snake s).toList.filter (· != '_') = (s.toList.filter (!isSeparator ·)).flatMap lowered ∧
    (∀ c ∈ (snake s).toList, c ≠ '-' ∧ c ≠ ' ') ∧
    (snake s).toList.filter isUpper = s.toList.filter isUnpaired ∧
    (snake (snake s) = snake s ↔
      ∀ p c rest, p :: c :: rest <:+ s.toList → ¬Unsettled p c rest) ∧
    ((∀ c ∈ s.toList, isUnpaired c = false) →
      (∀ c ∈ (snake s).toList, isUpper c = false) ∧ snake (snake s) = snake s) ∧
    snake (snake (snake s)) = snake (snake s) := by
  have hcapitals : (snake s).toList.filter isUpper = s.toList.filter isUnpaired := by
    rw [toList_snake, filter_isUpper_snakeFrom]
  have hleft : ∀ c ∈ (snake s).toList, isUpper c = true → c ∈ s.toList ∧ isUnpaired c = true := by
    intro c hc hupper
    have hkept := List.mem_filter.mpr ⟨hc, hupper⟩
    rwa [hcapitals, List.mem_filter] at hkept
  refine ⟨?_, fun c hc => ?_, hcapitals, snake_again_iff s, fun h => ⟨fun c hc => ?_, ?_⟩, ?_⟩
  · rw [toList_snake, filter_snakeFrom]
  · rw [toList_snake] at hc
    exact mem_snakeFrom hc
  · refine Bool.eq_false_iff.mpr fun hupper => ?_
    obtain ⟨hmem, hunpaired⟩ := hleft c hc hupper
    cases (h c hmem).symm.trans hunpaired
  · refine (snake_again_iff s).mpr fun p c rest hsuffix hunsettled => ?_
    have hc := h c (hsuffix.subset (List.mem_cons_of_mem _ List.mem_cons_self))
    cases hc.symm.trans hunsettled.2.1
  · -- all capitals of a snake case are unpaired, so none of them becomes another letter
    refine (snake_again_iff (snake s)).mpr fun p c rest hsuffix hunsettled => ?_
    obtain ⟨hp, -, -, ⟨hpaired, -⟩ | ⟨-, n, after, rfl, hn, hpaired, -⟩⟩ := hunsettled
    · cases hpaired.symm.trans (hleft p (hsuffix.subset List.mem_cons_self) hp).2
    · cases hpaired.symm.trans (hleft n (hsuffix.subset (by simp)) hn).2

/-- A capital of the mathematical alphabet has no lower case form. It is left in the snake case, and a
second pass takes it for the start of a word, behind the small letter that stands there now. -/
theorem snake_unsettled :
    (∃ c ∈ (snake "B𝐀").toList, isUpper c = true) ∧ snake (snake "B𝐀") ≠ snake "B𝐀" := by
  have hone : snake "B𝐀" = "b𝐀" := by decide +kernel
  have htwo : snake "b𝐀" = "b_𝐀" := by decide +kernel
  rw [hone, htwo]
  exact ⟨⟨'𝐀', by decide, by decide +kernel⟩, by decide⟩

end KubeLedger.Text
