import KubeLedger.Decimal
import KubeLedger.Json.Basic
import KubeLedger.Text.Bytes

/- JSON text in two steps. The first reads the written form of a value: brackets, names and lexemes,
   without looking into texts and numbers. The second gives the written form its value, which fails
   where a text is not UTF-8, an escape is half of a surrogate pair, a number is out of range, or
   nesting is too deep. A reader of typed data takes the second step only for the parts it keeps: a
   record is an object whose members are its fields, in any order, or an array of its fields in their
   order. Members that are no field are passed over without a look at their values; a field that is
   written twice is refused. -/
namespace KubeLedger.Json

open KubeLedger.Text

/-- One unit of a quoted text: a byte as it stands, or a numeric escape. -/
inductive Unit16 where
  | byte (b : UInt8)
  | escape (n : Nat)
deriving DecidableEq, Repr

/-- A number as it is written. -/
structure Lexeme where
  negative : Bool
  whole : List Char
  fraction : List Char
  /-- The exponent's sign, true for minus, and its digits. -/
  exponent : Option (Bool × List Char)
deriving DecidableEq, Repr

/-- The written form of a JSON value. Members stand in their written order, duplicates included. -/
inductive Source where
  | null
  | bool (value : Bool)
  | number (lexeme : Lexeme)
  | text (units : List Unit16)
  | array (items : List Source)
  | object (members : List (List Unit16 × Source))

/-! ## The written form -/

/-- The bytes that may stand between tokens. -/
def isSpace (b : UInt8) : Bool := b == 0x20 || b == 0x0A || b == 0x0D || b == 0x09

/-- The text after the blanks at its front. -/
def skipSpace (bs : Bytes) : Bytes := bs.dropWhile isSpace

def isDigitByte (b : UInt8) : Bool := 0x30 ≤ b && b ≤ 0x39

/-- The digits at the front, and what follows. -/
def spanDigitBytes (bs : Bytes) : List Char × Bytes :=
  ((bs.takeWhile isDigitByte).map fun b => Char.ofNat b.toNat, bs.dropWhile isDigitByte)

def readHex4? : Bytes → Option (Nat × Bytes)
  | a :: b :: c :: d :: rest => do
    let digit (x : UInt8) := hexValue? (Char.ofNat x.toNat)
    return ((((← digit a) * 16 + (← digit b)) * 16 + (← digit c)) * 16 + (← digit d), rest)
  | _ => none

def shortEscape? (b : UInt8) : Option UInt8 :=
  if b = 0x22 ∨ b = 0x5C ∨ b = 0x2F then some b
  else if b = 0x62 then some 0x08
  else if b = 0x66 then some 0x0C
  else if b = 0x6E then some 0x0A
  else if b = 0x72 then some 0x0D
  else if b = 0x74 then some 0x09
  else none

/-- The units of a quoted text after its opening quote, and what follows its closing quote. `fuel`
bounds the number of units. -/
def readUnits? : Nat → Bytes → Option (List Unit16 × Bytes)
  | 0, _ => none
  | _, [] => none
  | fuel + 1, b :: rest =>
    if b = 0x22 then some ([], rest)
    else if b = 0x5C then
      match rest with
      | [] => none
      | e :: rest =>
        if e = 0x75 then do
          let (n, rest) ← readHex4? rest
          let (us, rest) ← readUnits? fuel rest
          return (.escape n :: us, rest)
        else do
          let c ← shortEscape? e
          let (us, rest) ← readUnits? fuel rest
          return (.byte c :: us, rest)
    else if b < 0x20 then none
    else do
      let (us, rest) ← readUnits? fuel rest
      return (.byte b :: us, rest)

def readFractionBytes? : Bytes → Option (List Char × Bytes)
  | 0x2E :: rest =>
    let (ds, rest) := spanDigitBytes rest
    if ds.isEmpty then none else some (ds, rest)
  | rest => some ([], rest)

def readExponentBytes? : Bytes → Option (Option (Bool × List Char) × Bytes)
  | b :: rest =>
    if b = 0x65 ∨ b = 0x45 then
      let (negative, rest) :=
        match rest with
        | 0x2D :: rest => (true, rest)
        | 0x2B :: rest => (false, rest)
        | rest => (false, rest)
      let (ds, rest) := spanDigitBytes rest
      if ds.isEmpty then none else some (some (negative, ds), rest)
    else some (none, b :: rest)
  | [] => some (none, [])

/-- A number after its sign. Only a lone zero may lead with a zero. -/
def readNumber? (negative : Bool) (bs : Bytes) : Option (Lexeme × Bytes) := do
  let (whole, rest) := spanDigitBytes bs
  if whole.isEmpty || (whole.head? == some '0' && whole.length != 1) then none
  let (fraction, rest) ← readFractionBytes? rest
  let (exponent, rest) ← readExponentBytes? rest
  return (⟨negative, whole, fraction, exponent⟩, rest)

def expect? : Bytes → Bytes → Option Bytes
  | [], bs => some bs
  | w :: word, b :: bs => if w = b then expect? word bs else none
  | _ :: _, [] => none

mutual

/-- One value with the blanks before it. `fuel` bounds the number of steps. -/
def Source.readValue? : Nat → Bytes → Option (Source × Bytes)
  | 0, _ => none
  | fuel + 1, bs =>
    match skipSpace bs with
    | 0x6E :: rest => (expect? [0x75, 0x6C, 0x6C] rest).map fun r => (.null, r)
    | 0x74 :: rest => (expect? [0x72, 0x75, 0x65] rest).map fun r => (.bool true, r)
    | 0x66 :: rest => (expect? [0x61, 0x6C, 0x73, 0x65] rest).map fun r => (.bool false, r)
    | 0x22 :: rest => (readUnits? (rest.length + 1) rest).map fun (us, r) => (.text us, r)
    | 0x2D :: rest => (readNumber? true rest).map fun (l, r) => (.number l, r)
    | 0x5B :: rest =>
      match skipSpace rest with
      | 0x5D :: rest => some (.array [], rest)
      | rest => (Source.readItems? fuel rest).map fun (items, r) => (.array items, r)
    | 0x7B :: rest =>
      match skipSpace rest with
      | 0x7D :: rest => some (.object [], rest)
      | rest => (Source.readMembers? fuel rest).map fun (ms, r) => (.object ms, r)
    | rest => (readNumber? false rest).map fun (l, r) => (.number l, r)

/-- The items of an array from a first one on, and the closing bracket. -/
def Source.readItems? : Nat → Bytes → Option (List Source × Bytes)
  | 0, _ => none
  | fuel + 1, bs => do
    let (v, rest) ← Source.readValue? fuel bs
    match skipSpace rest with
    | 0x5D :: rest => return ([v], rest)
    | 0x2C :: rest =>
      let (vs, rest) ← Source.readItems? fuel rest
      return (v :: vs, rest)
    | _ => none

/-- The members of an object from a first one on, and the closing brace. -/
def Source.readMembers? : Nat → Bytes → Option (List (List Unit16 × Source) × Bytes)
  | 0, _ => none
  | fuel + 1, bs =>
    match skipSpace bs with
    | 0x22 :: rest => do
      let (name, rest) ← readUnits? (rest.length + 1) rest
      match skipSpace rest with
      | 0x3A :: rest => do
        let (v, rest) ← Source.readValue? fuel rest
        match skipSpace rest with
        | 0x7D :: rest => return ([(name, v)], rest)
        | 0x2C :: rest =>
          let (ms, rest) ← Source.readMembers? fuel rest
          return ((name, v) :: ms, rest)
        | _ => none
      | _ => none
    | _ => none

end

/-- The written form that makes up a whole text, blanks around it aside. Each step reads a byte, so
the length of the text is fuel enough. -/
def Source.read? (bs : Bytes) : Option Source :=
  match Source.readValue? (2 * bs.length + 2) bs with
  | some (v, rest) => if (skipSpace rest).isEmpty then some v else none
  | none => none

/-! ## The value -/

/-- The bytes that the units of a text stand for. A leading and a trailing surrogate escape make one
character; either alone is refused. -/
def unitBytes? : List Unit16 → Option Bytes
  | [] => some []
  | .byte b :: rest => (unitBytes? rest).map (b :: ·)
  | .escape n :: .escape m :: rest =>
    if 0xD800 ≤ n ∧ n < 0xDC00 then
      if 0xDC00 ≤ m ∧ m < 0xE000 then
        let c := Char.ofNat (0x10000 + (n - 0xD800) * 0x400 + (m - 0xDC00))
        (unitBytes? rest).map (encode (String.singleton c) ++ ·)
      else none
    else if 0xDC00 ≤ n ∧ n < 0xE000 then none
    else (unitBytes? (.escape m :: rest)).map (encode (String.singleton (Char.ofNat n)) ++ ·)
  | .escape n :: rest =>
    if 0xD800 ≤ n ∧ n < 0xE000 then none
    else (unitBytes? rest).map (encode (String.singleton (Char.ofNat n)) ++ ·)

def unitText? (units : List Unit16) : Option String := (unitBytes? units).bind decode?

/-- The digits of a number that fit a sixty-four bit significand, and how many do not. -/
def significand (start : Nat) : List Char → Nat × Nat
  | [] => (start, 0)
  | c :: rest =>
    let n := start * 10 + (c.toNat - 48)
    if n < 0x10000000000000000 then significand n rest else (start, rest.length + 1)

/-- Scales a double by a power of ten in steps of at most 308, rounding at each. A result beyond the
doubles is refused. -/
def scale? (x : Float) (e : Int) : Nat → Option Float
  | 0 => none
  | fuel + 1 =>
    if e.natAbs ≤ 308 then
      let p := Float.ofScientific 1 false e.natAbs
      if 0 ≤ e then
        let y := x * p
        if Decimal.isFinite y then some y else none
      else some (x / p)
    else if x == 0 then some x
    else if 0 ≤ e then none
    else scale? (x / Float.ofScientific 1 false 308) (e + 308) fuel

/-- The double for `± n · 10 ^ e`: the significand is rounded first and then scaled. -/
def assemble? (negative : Bool) (n : Nat) (e : Int) : Option Float :=
  (scale? (Float.ofNat n) e (e.natAbs / 308 + 2)).map fun x => if negative then -x else x

/-- The largest exponent that is read exactly. -/
def exponentMax : Nat := 0x7FFFFFFF

/-- The double of a lexeme with a fraction, an exponent or too many digits. Digits of the whole part
that do not fit the significand only count, those of the fraction are dropped. -/
def Lexeme.real? (l : Lexeme) : Option Float :=
  let (n, dropped) := significand 0 l.whole
  let (n, e) : Nat × Int :=
    let (m, lost) := significand n l.fraction
    (m, (dropped : Int) - (l.fraction.length - lost : Nat))
  match l.exponent with
  | none => assemble? l.negative n e
  | some (negative, ds) =>
    let x := Decimal.natOfDigits ds
    if exponentMax < x then
      if n ≠ 0 ∧ !negative then none else some (if l.negative then -0.0 else 0.0)
    else assemble? l.negative n (if negative then e - x else e + x)

/-- The value of a number. Minus zero and whole numbers beyond sixty-four bits are doubles. -/
def Lexeme.number? (l : Lexeme) : Option Number :=
  if l.fraction.isEmpty && l.exponent.isNone then
    let n := Decimal.natOfDigits l.whole
    if l.negative then
      if n = 0 ∨ 0x8000000000000000 < n then l.real?.map .real else some (.whole (-(n : Int)))
    else if n < 0x10000000000000000 then some (.whole n)
    else l.real?.map .real
  else l.real?.map .real

mutual

/-- The value of a written form with at most `depth` brackets open at once. -/
def Source.value? (depth : Nat) : Source → Option Json
  | .null => some .null
  | .bool b => some (.bool b)
  | .number l => l.number?.map .number
  | .text us => (unitText? us).map .text
  | .array items =>
    match depth with
    | 0 => none
    | d + 1 => (Source.itemValues? d items).map .array
  | .object members =>
    match depth with
    | 0 => none
    | d + 1 => (Source.memberValues? d members).map ofMembers

def Source.itemValues? (depth : Nat) : List Source → Option (List Json)
  | [] => some []
  | v :: rest => do
    let v ← v.value? depth
    return v :: (← Source.itemValues? depth rest)

def Source.memberValues? (depth : Nat) :
    List (List Unit16 × Source) → Option (List (String × Json))
  | [] => some []
  | (n, v) :: rest => do
    let n ← unitText? n
    let v ← v.value? depth
    return (n, v) :: (← Source.memberValues? depth rest)

end

def depthMax : Nat := 127

def read? (bs : Bytes) : Option Json := (Source.read? bs).bind fun s => s.value? depthMax

/-! ## Records -/

structure Fields where
  /-- Whether the record is written as an array. -/
  positional : Bool
  /-- For each field its written form, if it is there. -/
  values : List (Option Source)

namespace Fields

def required? (f : Fields) (i : Nat) : Option Source := f.values.getD i none

/-- A field that may be missing, read by `read`, and its value where it is. -/
def optional? {α : Type} (f : Fields) (i : Nat) (missing : α) (read : Source → Option α) :
    Option α :=
  match f.values.getD i none with
  | some s => read s
  | none => some missing

end Fields

namespace Source

def named? (members : List (List Unit16 × Source)) : Option (List (String × Source)) :=
  members.mapM fun m => (unitText? m.1).map fun n => (n, m.2)

def fields? (names : List String) : Source → Option Fields
  | .object members => do
    let members ← named? members
    let found := names.map fun n => members.filter fun m => m.1 == n
    if found.any fun ms => 1 < ms.length then none
    return ⟨false, found.map fun ms => (ms.head?).map fun m => m.2⟩
  | .array items =>
    if names.length < items.length then none
    else some ⟨true, names.mapIdx fun i _ => items[i]?⟩
  | _ => none

def asText? : Source → Option String
  | .text us => unitText? us
  | _ => none

def asOptText? : Source → Option (Option String)
  | .null => some none
  | s => s.asText?.map some

def asTexts? : Source → Option (List String)
  | .array items => items.mapM asText?
  | _ => none

def asNat? (bound : Nat) : Source → Option Nat
  | .number l =>
    match l.number? with
    | some (.whole n) => if 0 ≤ n ∧ n < bound then some n.toNat else none
    | _ => none
  | _ => none

end Source

end KubeLedger.Json
