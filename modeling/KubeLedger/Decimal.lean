/- Decimal literals and doubles. A literal has an optional sign, digits with an optional point, at least
   one digit, and an optional exponent. It denotes the double nearest to its exact value. The words
   `inf`, `infinity` and `nan` also name doubles, in any case.

   A double is an exact number of a sign, a significand and a power of two, and rounding it to whole
   numbers is done on that form, in integer arithmetic. So is finding the shortest digits that read
   back as a double, and of those the nearest to it. The reals that round to a double form an interval
   around it, ends included when its significand is even. On the grid of one digit, two digits, and so
   on, only the two neighbours of the double need a test. Where both lie equally near, the caller says
   which one is taken. -/
namespace KubeLedger.Decimal

/-! ## Literals -/

/-- A decimal literal `± digits · 10 ^ exponent`. -/
structure Literal where
  negative : Bool
  digits : Nat
  exponent : Int
deriving DecidableEq, Repr

def natOfDigits (cs : List Char) : Nat :=
  cs.foldl (fun n c => n * 10 + (c.toNat - 48)) 0

/-- Splits off a sign; true for minus. -/
def readSign : List Char → Bool × List Char
  | '-' :: rest => (true, rest)
  | '+' :: rest => (false, rest)
  | rest => (false, rest)

/-- The digits at the front, and what follows them. -/
def spanDigits (cs : List Char) : List Char × List Char :=
  (cs.takeWhile Char.isDigit, cs.dropWhile Char.isDigit)

/-- The digits after a point at the front, and what follows them. -/
def readFraction : List Char → List Char × List Char
  | '.' :: rest => spanDigits rest
  | rest => ([], rest)

/-- An exponent that makes up the whole text, zero if there is none. -/
def readExponent? : List Char → Option Int
  | [] => some 0
  | c :: rest =>
    if c = 'e' ∨ c = 'E' then
      let (negative, ds) := readSign rest
      if ds.isEmpty || !ds.all Char.isDigit then none
      else some (if negative then -(natOfDigits ds : Int) else natOfDigits ds)
    else none

def Literal.read? (cs : List Char) : Option Literal :=
  let (negative, cs) := readSign cs
  let (whole, rest) := spanDigits cs
  let (fraction, rest) := readFraction rest
  if whole.isEmpty && fraction.isEmpty then none
  else
    (readExponent? rest).map fun e =>
      ⟨negative, natOfDigits (whole ++ fraction), e - fraction.length⟩

/-- How many decimal digits a number has; zero has none. -/
def digitCount (n : Nat) : Nat :=
  if n = 0 then 0 else (Nat.toDigits 10 n).length

/-- The double nearest to `n · 10 ^ e`. Numbers from `10 ^ 400` on are infinite and numbers below
`10 ^ -400` are zero, whatever their digits. -/
def nearest (n : Nat) (e : Int) : Float :=
  let size := digitCount n + e
  if n = 0 ∨ size < -400 then 0
  else if 400 < size then Float.ofBits 0x7FF0000000000000
  else Float.ofScientific n (e < 0) e.natAbs

def Literal.toFloat (l : Literal) : Float :=
  let x := nearest l.digits l.exponent
  if l.negative then -x else x

/-- The infinity or NaN that a word names. -/
def readWord? (cs : List Char) : Option Float :=
  let word := cs.map Char.toLower
  if word = ['i', 'n', 'f'] ∨ word = ['i', 'n', 'f', 'i', 'n', 'i', 't', 'y'] then
    some (Float.ofBits 0x7FF0000000000000)
  else if word = ['n', 'a', 'n'] then some (Float.ofBits 0x7FF8000000000000)
  else none

/-- The double that a text names: a literal, or a word after an optional sign. -/
def readChars? (cs : List Char) : Option Float :=
  match Literal.read? cs with
  | some l => some l.toFloat
  | none =>
    let (negative, rest) := readSign cs
    (readWord? rest).map fun x => if negative then -x else x

def read? (s : String) : Option Float := readChars? s.toList

/-! ## Exact doubles -/

/-- The finite number `± significand · 2 ^ exponent`. -/
structure Binary where
  negative : Bool
  significand : Nat
  exponent : Int
deriving DecidableEq, Repr

/-- What a double stands for. -/
inductive Reading where
  | nan
  | infinite (negative : Bool)
  | finite (value : Binary)
deriving DecidableEq, Repr

/-- Reads the fields of a double: one sign bit, eleven exponent bits, fifty-two fraction bits. -/
def Reading.ofBits (bits : UInt64) : Reading :=
  let n := bits.toNat
  let negative := n >>> 63 == 1
  let field : Nat := (n >>> 52) % 0x800
  let fraction : Nat := n % 0x10000000000000
  if field = 2047 then
    if fraction = 0 then .infinite negative else .nan
  else if field = 0 then .finite ⟨negative, fraction, -1074⟩
  else .finite ⟨negative, 0x10000000000000 + fraction, (field : Int) - 1075⟩

def Reading.of (x : Float) : Reading := Reading.ofBits x.toBits

def isFinite (x : Float) : Bool :=
  match Reading.of x with
  | .finite _ => true
  | _ => false

def isNaN (x : Float) : Bool :=
  match Reading.of x with
  | .nan => true
  | _ => false

/-- The nearest whole number; a half goes away from zero. -/
def Binary.round (b : Binary) : Int :=
  let magnitude : Nat :=
    if 0 ≤ b.exponent then b.significand * Nat.pow 2 b.exponent.toNat
    else
      let scale := Nat.pow 2 (-b.exponent).toNat
      (2 * b.significand + scale) / (2 * scale)
  if b.negative then -(magnitude : Int) else magnitude

def int64Min : Int := -0x8000000000000000
def int64Max : Int := 0x7FFFFFFFFFFFFFFF

/-- The number, or the nearer end of the range of sixty-four bits. -/
def clamp (n : Int) : Int64 := Int64.ofInt (max int64Min (min int64Max n))

/-- The nearest whole number of sixty-four bits. NaN counts as zero and infinities saturate. -/
def roundToInt64 (x : Float) : Int64 :=
  match Reading.of x with
  | .nan => 0
  | .infinite negative => if negative then clamp int64Min else clamp int64Max
  | .finite b => clamp b.round

/-! ## Shortest digits -/

/-- The number `digits · 10 ^ exponent`. -/
structure Digits where
  digits : Nat
  exponent : Int
deriving DecidableEq, Repr

/-- Which of two equally near neighbours is taken: the even one, or the greater one. -/
inductive Tie where
  | even
  | up
deriving DecidableEq, Repr

/-- Whether the lower neighbour is taken, given its digits and the distances to both. -/
def Tie.takesLower (tie : Tie) (below belowGap aboveGap : Nat) : Bool :=
  if belowGap = aboveGap then
    match tie with
    | .even => below % 2 == 0
    | .up => false
  else belowGap < aboveGap

/-- The position of the leading digit: the `p` with `10 ^ (p - 1) ≤ num / den < 10 ^ p`. Fractions
below one are scaled up at most `fuel` times. -/
def leadingPlace (num den : Nat) : Nat → Int
  | 0 => 0
  | fuel + 1 =>
    if den ≤ num then (Nat.toDigits 10 (num / den)).length
    else leadingPlace (num * 10) den fuel - 1

/-- Drops zeros at the end of the digits. -/
def Digits.trim (d : Digits) : Nat → Digits
  | 0 => d
  | fuel + 1 =>
    if d.digits ≠ 0 ∧ d.digits % 10 = 0 then
      Digits.trim ⟨d.digits / 10, d.exponent + 1⟩ fuel
    else d

/-- The interval of reals that round to a double, over one denominator. -/
structure Interval where
  low : Nat
  mid : Nat
  high : Nat
  den : Nat
  closed : Bool

/-- The interval of a positive finite double. Its lower half is narrow at a power of two. -/
def Binary.interval (b : Binary) : Interval :=
  let narrow := b.significand == 0x10000000000000 && b.exponent != -1074
  let mid := 4 * b.significand
  let low := if narrow then mid - 1 else mid - 2
  let high := mid + 2
  let closed := b.significand % 2 == 0
  let e := b.exponent - 2
  if 0 ≤ e then
    let s := Nat.pow 2 e.toNat
    ⟨low * s, mid * s, high * s, 1, closed⟩
  else ⟨low, mid, high, Nat.pow 2 (-e).toNat, closed⟩

/-- Whether the fraction `n / d` lies in the interval. -/
def Interval.holds (i : Interval) (n d : Nat) : Bool :=
  if i.closed then i.low * d ≤ n * i.den && n * i.den ≤ i.high * d
  else i.low * d < n * i.den && n * i.den < i.high * d

/-- The neighbour of the double on the grid of multiples of `10 ^ e`, if one lies in the interval;
of two the nearer. -/
def Interval.onGrid (i : Interval) (tie : Tie) (e : Int) : Option Digits :=
  let up := Nat.pow 10 e.toNat
  let down := Nat.pow 10 (-e).toNat
  let below := i.mid * down / (i.den * up)
  let above := below + 1
  let fits (n : Nat) : Bool := n != 0 && i.holds (n * up) down
  let belowGap := i.mid * down - below * up * i.den
  let aboveGap := above * up * i.den - i.mid * down
  if fits below && fits above then
    some ⟨if tie.takesLower below belowGap aboveGap then below else above, e⟩
  else if fits below then some ⟨below, e⟩
  else if fits above then some ⟨above, e⟩
  else none

/-- The digits of a positive finite double on the first grid that has some, from `count` digits on.
-/
def Interval.search (i : Interval) (tie : Tie) (place : Int) (count : Nat) : Nat → Digits
  | 0 => ⟨0, 0⟩
  | fuel + 1 =>
    match i.onGrid tie (place - count) with
    | some d => d
    | none => i.search tie place (count + 1) fuel

/-- The shortest digits of a finite double without its sign; zero has the digits 0. -/
def Binary.shortest (b : Binary) (tie : Tie) : Digits :=
  if b.significand = 0 then ⟨0, 0⟩
  else
    let i := b.interval
    let place := leadingPlace i.mid i.den 400
    (i.search tie place 1 17).trim 20

end KubeLedger.Decimal
