import KubeLedger.Mapping.Snapshot
import KubeLedger.Proofs.Spellings

/- Which texts are windows of time, and how long they are. A window is written as one part after
   another (`Window.Part`): digits, perhaps a point and more digits, and a unit. A part ends where the
   digits of the next one begin, so that minutes are never taken for milliseconds, and reading finds
   the parts that were written (`readPart?_part`). Nothing else is read (`readPart?_split`): a text
   has a length exactly if it consists of parts, at least one of them (`read?_iff`). -/
namespace KubeLedger.Window
open Decimal (pointed natOfDigits spanDigits)

/-! ## Written windows -/

/-- A unit of time: its text, and what it makes of an amount, in milliseconds. -/
structure TimeUnit where
  text : List Char
  scale : Float → Float

def units : List TimeUnit :=
  [⟨['n', 's'], (· / 1000000)⟩, ⟨['u', 's'], (· / 1000)⟩, ⟨['µ', 's'], (· / 1000)⟩,
   ⟨['m', 's'], id⟩, ⟨['s'], (· * 1000)⟩, ⟨['m'], (· * 60000)⟩, ⟨['h'], (· * 3600000)⟩]

structure Part where
  whole : List Char
  /-- The digits behind the point, if there is one. -/
  fraction : Option (List Char)
  unit : TimeUnit
  isDigit : ∀ c ∈ whole ++ fraction.getD [], c.isDigit = true
  whole_ne : whole ≠ []
  fraction_ne : ∀ ds ∈ fraction, ds ≠ []
  unit_mem : unit ∈ units

namespace Part

def chars (p : Part) : List Char := p.whole ++ (pointed p.fraction ++ p.unit.text)

/-- The number in front of the unit. -/
def amount (p : Part) : Decimal.Literal :=
  ⟨false, natOfDigits (p.whole ++ p.fraction.getD []), -((p.fraction.getD []).length : Int)⟩

/-- How long a part is, in milliseconds. -/
def millis (p : Part) : Float := p.unit.scale p.amount.toFloat

theorem chars_eq_cons (p : Part) : ∃ c rest, p.chars = c :: rest ∧ c.isDigit = true := by
  obtain ⟨c, rest, hwhole⟩ := List.exists_cons_of_ne_nil p.whole_ne
  refine ⟨c, rest ++ (pointed p.fraction ++ p.unit.text), ?_, p.isDigit c ?_⟩
  · rw [chars, hwhole, List.cons_append]
  · rw [hwhole]
    exact List.mem_cons_self

end Part

def written (parts : List Part) : List Char := parts.flatMap Part.chars

/-- How long parts are together, added to what there is. -/
def sum (total : Float) (parts : List Part) : Float :=
  parts.foldl (fun total p => total + p.millis) total

/-! ## Reading what is written -/

theorem readUnit?_unit {u : TimeUnit} (hu : u ∈ units) {rest : List Char}
    (hrest : ∀ c ∈ rest.head?, c.isDigit = true) :
    readUnit? (u.text ++ rest) = some (u.scale, rest) := by
  simp only [units, List.mem_cons, List.not_mem_nil, or_false] at hu
  obtain rfl | rfl | rfl | rfl | rfl | rfl | rfl := hu
  case inr.inr.inr.inr.inr.inl =>
    -- minutes, unless the letter of seconds follows
    cases rest with
    | nil => rfl
    | cons c rest =>
      have hne : c ≠ 's' := by
        rintro rfl
        cases hrest 's' rfl
      simp [readUnit?, hne]
  all_goals rfl

theorem readAmount?_amount (p : Part) {rest : List Char}
    (hrest : ∀ c ∈ rest.head?, c.isDigit = false ∧ c ≠ '.') :
    readAmount? (p.whole ++ (pointed p.fraction ++ rest)) = some (p.amount, rest) := by
  obtain ⟨whole, fraction, unit, hdigit, hwhole, hfraction, -⟩ := p
  obtain ⟨hfront, hback⟩ := List.forall_mem_append.mp hdigit
  cases fraction with
  | none =>
    have hspan : spanDigits (whole ++ rest) = (whole, rest) :=
      Decimal.spanDigits_append hfront fun c hc => (hrest c hc).1
    simp only [readAmount?, pointed, List.nil_append, hspan]
    cases rest with
    | nil => simp [hwhole, Part.amount]
    | cons c rest =>
      have hpoint : c ≠ '.' := (hrest c rfl).2
      simp [hwhole, hpoint, Part.amount]
  | some ds =>
    have hspan : spanDigits (whole ++ '.' :: (ds ++ rest)) = (whole, '.' :: (ds ++ rest)) :=
      Decimal.spanDigits_append hfront fun c hc => by cases hc; rfl
    have hspan' : spanDigits (ds ++ rest) = (ds, rest) :=
      Decimal.spanDigits_append hback fun c hc => (hrest c hc).1
    have hds : ds ≠ [] := hfraction ds rfl
    simp [readAmount?, pointed, Part.amount, hspan, hspan', hwhole, hds]

/-- A part is read as what it is, with another one behind it or none. -/
theorem readPart?_part (p : Part) {rest : List Char} (hrest : ∀ c ∈ rest.head?, c.isDigit = true) :
    readPart? (p.chars ++ rest) = some (p.millis, rest) := by
  have hunit : ∀ c ∈ (p.unit.text ++ rest).head?, c.isDigit = false ∧ c ≠ '.' := by
    have hunits : ∀ cs ∈ units.map TimeUnit.text,
        cs.head?.any (fun c => !c.isDigit && c != '.') = true := by decide
    obtain ⟨c, hhead, hc⟩ := (Option.any_eq_true _ _).mp (hunits _ (List.mem_map_of_mem p.unit_mem))
    obtain ⟨cs, htext⟩ := List.head?_eq_some_iff.mp hhead
    rw [htext]
    rintro d ⟨⟩
    simpa using hc
  have hchars : p.chars ++ rest = p.whole ++ (pointed p.fraction ++ (p.unit.text ++ rest)) := by
    simp [Part.chars]
  rw [readPart?, hchars, readAmount?_amount p hunit]
  show (readUnit? (p.unit.text ++ rest)).bind _ = _
  rw [readUnit?_unit p.unit_mem hrest]
  rfl

theorem readParts?_written {parts : List Part} (hne : parts ≠ []) (total : Float) {fuel : Nat}
    (hfuel : (written parts).length ≤ fuel) :
    readParts? total (written parts) fuel = some (sum total parts) := by
  induction parts generalizing total fuel with
  | nil => exact absurd rfl hne
  | cons p parts ih =>
    obtain ⟨c, cs, hchars, -⟩ := p.chars_eq_cons
    have hlength : (written (p :: parts)).length = p.chars.length + (written parts).length := by
      simp [written]
    have hnext : ∀ c ∈ (written parts).head?, c.isDigit = true := by
      cases parts with
      | nil => exact nofun
      | cons q parts =>
        obtain ⟨d, ds, hchars', hd⟩ := q.chars_eq_cons
        intro e he
        simp only [written, List.flatMap_cons, hchars', List.cons_append, List.head?_cons,
          Option.mem_some_iff] at he
        exact he ▸ hd
    cases fuel with
    | zero =>
      rw [hlength, hchars, List.length_cons] at hfuel
      omega
    | succ fuel =>
      rw [hlength, hchars, List.length_cons] at hfuel
      have hread : readPart? (written (p :: parts)) = some (p.millis, written parts) :=
        readPart?_part p hnext
      rw [readParts?, hread]
      cases parts with
      | nil => rfl
      | cons q parts =>
        have hmore : written (q :: parts) ≠ [] := by
          obtain ⟨d, ds, hchars', -⟩ := q.chars_eq_cons
          simp [written, hchars']
        have hstep : readParts? (total + p.millis) (written (q :: parts)) fuel =
            some (sum (total + p.millis) (q :: parts)) := ih (by simp) _ (by omega)
        simp [hmore, hstep, sum]

/-! ## What can be read is written so -/

theorem readUnit?_split {cs rest : List Char} {f : Float → Float}
    (h : readUnit? cs = some (f, rest)) : ∃ u ∈ units, cs = u.text ++ rest ∧ f = u.scale := by
  unfold readUnit? at h
  split at h
  case h_8 => cases h
  all_goals cases h
  · exact ⟨_, List.mem_of_getElem? (i := 0) rfl, rfl, rfl⟩
  · exact ⟨_, List.mem_of_getElem? (i := 1) rfl, rfl, rfl⟩
  · exact ⟨_, List.mem_of_getElem? (i := 2) rfl, rfl, rfl⟩
  · exact ⟨_, List.mem_of_getElem? (i := 3) rfl, rfl, rfl⟩
  · exact ⟨_, List.mem_of_getElem? (i := 4) rfl, rfl, rfl⟩
  · exact ⟨_, List.mem_of_getElem? (i := 5) rfl, rfl, rfl⟩
  · exact ⟨_, List.mem_of_getElem? (i := 6) rfl, rfl, rfl⟩

/-- A number in front of a unit: its digits, and what they make. -/
theorem readAmount?_split {cs rest : List Char} {amount : Decimal.Literal}
    (h : readAmount? cs = some (amount, rest)) :
    ∃ whole, ∃ fraction : Option (List Char), cs = whole ++ (pointed fraction ++ rest) ∧
      (∀ c ∈ whole ++ fraction.getD [], c.isDigit = true) ∧ whole ≠ [] ∧
      (∀ ds ∈ fraction, ds ≠ []) ∧
      amount = ⟨false, natOfDigits (whole ++ fraction.getD []), -((fraction.getD []).length : Int)⟩ := by
  obtain ⟨hsplit, hdigit⟩ := Decimal.spanDigits_split cs
  unfold readAmount? at h
  generalize spanDigits cs = split at h hsplit hdigit
  obtain ⟨whole, tail⟩ := split
  dsimp only at h hsplit hdigit
  split at h
  · cases h
  · next hwhole =>
    have hwhole : whole ≠ [] := by simpa using hwhole
    split at h
    · next more =>
      obtain ⟨hsplit', hdigit'⟩ := Decimal.spanDigits_split more
      generalize spanDigits more = split at h hsplit' hdigit'
      obtain ⟨fraction, tail⟩ := split
      dsimp only at h hsplit' hdigit'
      split at h
      · cases h
      · next hfraction =>
        cases h
        refine ⟨whole, some fraction, ?_, List.forall_mem_append.mpr ⟨hdigit, hdigit'⟩, hwhole, ?_,
          rfl⟩
        · rw [hsplit, hsplit']
          rfl
        · rintro ds ⟨⟩
          simpa using hfraction
    · cases h
      refine ⟨whole, none, hsplit, ?_, hwhole, nofun, ?_⟩
      · simpa using hdigit
      · simp

theorem readPart?_split {cs rest : List Char} {x : Float} (h : readPart? cs = some (x, rest)) :
    ∃ p : Part, cs = p.chars ++ rest ∧ x = p.millis := by
  obtain ⟨⟨amount, tail⟩, hamount, h⟩ := Option.bind_eq_some_iff.mp h
  obtain ⟨⟨scale, tail'⟩, hunit, h⟩ := Option.bind_eq_some_iff.mp h
  cases h
  obtain ⟨whole, fraction, rfl, hdigit, hwhole, hfraction, rfl⟩ := readAmount?_split hamount
  obtain ⟨u, hu, rfl, rfl⟩ := readUnit?_split hunit
  exact ⟨⟨whole, fraction, u, hdigit, hwhole, hfraction, hu⟩, by simp [Part.chars], rfl⟩

theorem readParts?_split {total x : Float} {cs : List Char} {fuel : Nat}
    (h : readParts? total cs fuel = some x) :
    ∃ parts ≠ [], cs = written parts ∧ x = sum total parts := by
  induction fuel generalizing total cs with
  | zero => cases h
  | succ fuel ih =>
    obtain ⟨⟨millis, rest⟩, hpart, h⟩ := Option.bind_eq_some_iff.mp h
    obtain ⟨p, rfl, rfl⟩ := readPart?_split hpart
    dsimp only at h
    split at h
    · next hempty =>
      cases h
      refine ⟨[p], by simp, ?_, rfl⟩
      simp [written, List.isEmpty_iff.mp hempty]
    · obtain ⟨parts, -, rfl, rfl⟩ := ih h
      exact ⟨p :: parts, by simp, rfl, rfl⟩

/-- A text has a length exactly if it consists of parts, which is that of the parts together. -/
theorem read?_iff {s : String} {n : Int64} :
    read? s = some n ↔
      ∃ parts ≠ [], s.toList = written parts ∧ n = Decimal.roundToInt64 (sum 0 parts) := by
  unfold read?
  rw [Option.map_eq_some_iff]
  constructor
  · rintro ⟨x, hx, rfl⟩
    obtain ⟨parts, hne, hchars, rfl⟩ := readParts?_split hx
    exact ⟨parts, hne, hchars, rfl⟩
  · rintro ⟨parts, hne, hchars, rfl⟩
    refine ⟨sum 0 parts, ?_, rfl⟩
    rw [hchars]
    exact readParts?_written hne 0 (Nat.le_refl _)

theorem read?_eq_none_iff {s : String} :
    read? s = none ↔ ∀ parts ≠ [], s.toList ≠ written parts := by
  rw [Option.eq_none_iff_forall_ne_some]
  constructor
  · intro h parts hne hchars
    exact h _ (read?_iff.mpr ⟨parts, hne, hchars, rfl⟩)
  · intro h n hn
    obtain ⟨parts, hne, hchars, -⟩ := read?_iff.mp hn
    exact h parts hne hchars

end KubeLedger.Window
