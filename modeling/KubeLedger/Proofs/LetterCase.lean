import KubeLedger.Text.Case

/- Upper and lower case letters. The classes are tables of runs of code points, so what holds of every
   letter is decided over pairs of runs: no letter is in both classes (`isUpper_of_isLower`), and the
   lower case form of a letter is the letter itself, or one lower case letter, or, for the dotted
   capital I, an i and a mark (`lower_cases`). So a capital has a lower case form without capitals,
   or it is unpaired and stands for itself (`lower_of_paired`, `lower_of_unpaired`). -/
namespace KubeLedger.Text

/-! ## Runs -/

namespace Run
variable {a b r : Run} {n : Nat}

theorem holds_iff : r.holds n = true ↔ r.first ≤ n ∧ n ≤ r.last ∧ (n - r.first) % r.step = 0 := by
  simp [holds, and_assoc]

/-- Whether a run lies on the grid of another, between its ends. -/
def within (a b : Run) : Bool :=
  b.first ≤ a.first && a.last ≤ b.last && (a.first - b.first) % b.step == 0 &&
    (a.first == a.last || a.step % b.step == 0)

theorem holds_of_within (h : a.within b = true) (hn : a.holds n = true) : b.holds n = true := by
  simp only [within, Bool.and_eq_true, Bool.or_eq_true, decide_eq_true_eq, beq_iff_eq] at h
  obtain ⟨⟨⟨hfirst, hlast⟩, hgrid⟩, hstep⟩ := h
  obtain ⟨hlow, hhigh, hmember⟩ := holds_iff.mp hn
  refine holds_iff.mpr ⟨by omega, by omega, ?_⟩
  have hstep : (n - a.first) % b.step = 0 := by
    rcases hstep with hsingle | hstep
    · rw [show n - a.first = 0 by omega, Nat.zero_mod]
    · exact Nat.mod_eq_zero_of_dvd
        (Nat.dvd_trans (Nat.dvd_of_mod_eq_zero hstep) (Nat.dvd_of_mod_eq_zero hmember))
  rw [show n - b.first = (n - a.first) + (a.first - b.first) by omega, Nat.add_mod, hstep, hgrid]
  simp

/-- Whether all code points of a run are even or all are odd. -/
def alternates (r : Run) : Bool := r.first == r.last || r.step == 2

theorem alternates_mod (h : r.alternates = true) (hn : r.holds n = true) :
    n % 2 = r.first % 2 := by
  simp only [alternates, Bool.or_eq_true, beq_iff_eq] at h
  obtain ⟨hlow, hhigh, hmember⟩ := holds_iff.mp hn
  rcases h with hsingle | hstep
  · rw [show n = r.first by omega]
  · rw [hstep] at hmember
    omega

/-- Whether two runs do not overlap, or interleave. -/
def apart (a b : Run) : Bool :=
  a.last.blt b.first || b.last.blt a.first ||
    (a.alternates && b.alternates && a.first % 2 != b.first % 2)

theorem not_holds_of_apart (h : a.apart b = true) (hn : a.holds n = true) : b.holds n = false := by
  simp only [apart, Bool.and_eq_true, Bool.or_eq_true, Nat.blt_eq, bne_iff_ne] at h
  refine Bool.eq_false_iff.mpr fun hb => ?_
  obtain ⟨hlow, hhigh, -⟩ := holds_iff.mp hn
  obtain ⟨hlow', hhigh', -⟩ := holds_iff.mp hb
  rcases h with (hbefore | hafter) | ⟨⟨ha, hb'⟩, hparity⟩
  · omega
  · omega
  · exact hparity ((alternates_mod ha hn).symm.trans (alternates_mod hb' hb))

end Run

/-- The code points that a run of letters is lowered to. -/
def CaseRun.image (r : CaseRun) : Run :=
  ⟨(r.run.first + r.shift).toNat, (r.run.last + r.shift).toNat, r.run.step⟩

theorem CaseRun.image_holds {r : CaseRun} {n : Nat} (hshift : 0 ≤ r.run.first + r.shift)
    (h : r.run.holds n = true) : r.image.holds (n + r.shift).toNat = true := by
  obtain ⟨hlow, hhigh, hmember⟩ := Run.holds_iff.mp h
  refine Run.holds_iff.mpr ⟨?_, ?_, ?_⟩
  · show (r.run.first + r.shift).toNat ≤ _
    omega
  · show _ ≤ (r.run.last + r.shift).toNat
    omega
  · show ((n + r.shift).toNat - (r.run.first + r.shift).toNat) % r.run.step = 0
    rw [show (n + r.shift).toNat - (r.run.first + r.shift).toNat = n - r.run.first by omega, hmember]

/-! ## The classes -/

section Tables

theorem upperRuns_apart : (upperRuns.all fun r => lowerRuns.all r.apart) = true := by
  decide +kernel

theorem caseRuns_image : ∀ r ∈ caseRuns, 0 ≤ r.run.first + r.shift ∧
    lowerRuns.any r.image.within = true := by
  decide +kernel

/-- Lower case letters are not surrogates. -/
theorem lowerRuns_valid : ∀ r ∈ lowerRuns, r.last < 0xD800 ∨ 0xDFFF < r.first ∧ r.last < 0x110000 := by
  decide +kernel

end Tables

theorem listed_iff {runs : List Run} {n : Nat} :
    listed runs n = true ↔ ∃ r ∈ runs, r.holds n = true := by
  simp [listed]

theorem isUpper_of_isLower {c : Char} (h : isLower c = true) : isUpper c = false := by
  refine Bool.eq_false_iff.mpr fun hupper => ?_
  obtain ⟨a, ha, hholds⟩ := listed_iff.mp hupper
  obtain ⟨b, hb, hholds'⟩ := listed_iff.mp h
  have hapart := List.all_eq_true.mp (List.all_eq_true.mp upperRuns_apart a ha) b hb
  cases (Run.not_holds_of_apart hapart hholds).symm.trans hholds'

/-- What a run of letters is lowered to is a lower case letter. -/
theorem isLower_of_shift {r : CaseRun} (hr : r ∈ caseRuns) {n : Nat} (h : r.run.holds n = true) :
    isLower (Char.ofNat (n + r.shift).toNat) = true := by
  obtain ⟨hshift, hany⟩ := caseRuns_image r hr
  obtain ⟨l, hl, hwithin⟩ := List.any_eq_true.mp hany
  have hholds := Run.holds_of_within hwithin (r.image_holds hshift h)
  have hvalid : (n + r.shift).toNat.isValidChar := by
    obtain ⟨hlow, hhigh, -⟩ := Run.holds_iff.mp hholds
    have hrange := lowerRuns_valid l hl
    unfold Nat.isValidChar
    omega
  have hchar : (Char.ofNat (n + r.shift).toNat).toNat = (n + r.shift).toNat := by
    rw [Char.ofNat, dif_pos hvalid]
    rfl
  refine listed_iff.mpr ⟨l, hl, ?_⟩
  rw [hchar]
  exact hholds

def dotAbove : Char := Char.ofNat 0x307

theorem lower_cases (c : Char) :
    lower c = [c] ∨ (∃ d, lower c = [d] ∧ isLower d = true) ∨
      c = 'İ' ∧ lower c = ['i', dotAbove] := by
  unfold lower
  split
  · next hdotted =>
    refine .inr (.inr ⟨?_, rfl⟩)
    rw [← Char.ofNat_toNat c, hdotted]
  · split
    · next r hfind =>
      have hholds := List.find?_some hfind
      exact .inr (.inl ⟨_, rfl, isLower_of_shift (List.mem_of_find?_eq_some hfind) hholds⟩)
    · exact .inl rfl

/-! ## Capitals without a lower case form -/

/-- An upper case letter that has no lower case form and stands for itself. -/
def isUnpaired (c : Char) : Bool := isUpper c && lower c == [c]

section Capitals
variable {c : Char}

theorem isUpper_of_isUnpaired (h : isUnpaired c = true) : isUpper c = true :=
  (Bool.and_eq_true_iff.mp h).1

theorem lower_of_unpaired (h : isUnpaired c = true) : lower c = [c] :=
  beq_iff_eq.mp (Bool.and_eq_true_iff.mp h).2

/-- A capital that is not unpaired has a lower case form, which is one letter except for the dotted I. -/
theorem lower_of_paired (hupper : isUpper c = true) (hpaired : isUnpaired c = false) :
    (∃ d, lower c = [d] ∧ isLower d = true) ∧ c ≠ 'İ' ∨ c = 'İ' ∧ lower c = ['i', dotAbove] := by
  have hself : lower c ≠ [c] := by simpa [isUnpaired, hupper] using hpaired
  rcases lower_cases c with hsame | ⟨d, hlower, hd⟩ | hdotted
  · exact absurd hsame hself
  · refine .inl ⟨⟨d, hlower, hd⟩, ?_⟩
    rintro rfl
    simp [lower] at hlower
  · exact .inr hdotted

theorem isLower_of_isUpper (h : isUpper c = true) : isLower c = false :=
  Bool.eq_false_iff.mpr fun hlower => nomatch h.symm.trans (isUpper_of_isLower hlower)

theorem isDigit_of_isUpper (h : isUpper c = true) : c.isDigit = false := by
  refine Bool.eq_false_iff.mpr fun hdigit => ?_
  have hnone : ∀ n < 58, listed upperRuns n = false := by decide +kernel
  obtain ⟨-, hhigh⟩ := Char.isDigit_iff_toNat.mp hdigit
  cases h.symm.trans (hnone c.toNat (Nat.lt_succ_of_le hhigh))

end Capitals

end KubeLedger.Text
