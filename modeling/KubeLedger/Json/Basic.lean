import KubeLedger.Decimal
import KubeLedger.Text.Bytes

/- JSON values. An object is a list of members in the order of their names, each name once, so that
   two objects with the same members are the same value. A pointer names a place inside a value by
   member names and element positions.

   The text of a value is compact: no blanks, members in order, and the shortest digits for doubles.
   Doubles from 1e-5 up to 1e16 are positional and always show a point; the others have an exponent.
   Of two equally near decimals the even one is written. -/
namespace KubeLedger

/-- A JSON number: a whole number that fits sixty-four bits, or a double. -/
inductive Json.Number where
  | whole (value : Int)
  | real (value : Float)

inductive Json where
  | null
  | bool (value : Bool)
  | number (value : Json.Number)
  | text (value : String)
  | array (items : List Json)
  | object (members : List (String × Json))

namespace Json

instance : Inhabited Json := ⟨.null⟩

/-- Puts a member in its place; a member of the same name is replaced. -/
def insert (name : String) (value : Json) : List (String × Json) → List (String × Json)
  | [] => [(name, value)]
  | (n, v) :: rest =>
    if name = n then (name, value) :: rest
    else if name < n then (name, value) :: (n, v) :: rest
    else (n, v) :: insert name value rest

/-- The object with the given members. Of two members with one name the later wins. -/
def ofMembers (members : List (String × Json)) : Json :=
  .object (members.foldl (fun acc m => insert m.1 m.2 acc) [])

def get? (name : String) : Json → Option Json
  | .object members => members.lookup name
  | _ => none

def text? : Json → Option String
  | .text s => some s
  | _ => none

def bool? : Json → Option Bool
  | .bool b => some b
  | _ => none

def array? : Json → Option (List Json)
  | .array items => some items
  | _ => none

def members? : Json → Option (List (String × Json))
  | .object members => some members
  | _ => none

/-- A whole number in the signed range of sixty-four bits. -/
def int64? : Json → Option Int64
  | .number (.whole n) =>
    if -0x8000000000000000 ≤ n ∧ n < 0x8000000000000000 then some (Int64.ofInt n) else none
  | _ => none

/-- The position that a pointer token names in an array: digits without a leading zero. -/
def position? (token : String) : Option Nat :=
  let cs := token.toList
  if cs.isEmpty || !cs.all Char.isDigit || (cs.head? == some '0' && cs.length != 1) then none
  else
    let n := cs.foldl (fun n c => n * 10 + (c.toNat - 48)) 0
    if n < 0x10000000000000000 then some n else none

/-- The value one token below. -/
def child? (token : String) : Json → Option Json
  | .object members => members.lookup token
  | .array items => (position? token).bind fun i => items[i]?
  | _ => none

def at? (value : Json) : List String → Option Json
  | [] => some value
  | token :: path => (value.child? token).bind fun v => v.at? path

def textAt? (value : Json) (path : List String) : Option String :=
  (value.at? path).bind text?

def splitSlashes : List Char → List (List Char)
  | [] => [[]]
  | '/' :: rest => [] :: splitSlashes rest
  | c :: rest =>
    match splitSlashes rest with
    | part :: parts => (c :: part) :: parts
    | [] => [[c]]

/-- Replaces the escapes of a token: `~1` is a slash, `~0` a tilde. -/
def unescapeToken : List Char → List Char
  | '~' :: '1' :: rest => '/' :: unescapeToken rest
  | '~' :: '0' :: rest => '~' :: unescapeToken rest
  | c :: rest => c :: unescapeToken rest
  | [] => []

/-- The path that a pointer text writes: nothing, or tokens that each follow a slash. -/
def pointer? (s : String) : Option (List String) :=
  match s.toList with
  | [] => some []
  | '/' :: rest => some ((splitSlashes rest).map fun cs => String.ofList (unescapeToken cs))
  | _ => none

end Json

/-! ## Text -/

namespace Json

def quoteChar (c : Char) : List Char :=
  if c = '"' then ['\\', '"']
  else if c = '\\' then ['\\', '\\']
  else if c = '\x08' then ['\\', 'b']
  else if c = '\x0c' then ['\\', 'f']
  else if c = '\n' then ['\\', 'n']
  else if c = '\r' then ['\\', 'r']
  else if c = '\t' then ['\\', 't']
  else if c.toNat < 0x20 then
    ['\\', 'u', '0', '0', Text.hexDigit (c.toNat / 16), Text.hexDigit (c.toNat % 16)]
  else [c]

def quote (s : String) : List Char := '"' :: s.toList.flatMap quoteChar ++ ['"']

/-- Digits with the point after the `place`th of them, padded with zeros on either side. -/
def positional (digits : List Char) (place : Int) : List Char :=
  if place ≤ 0 then '0' :: '.' :: List.replicate (-place).toNat '0' ++ digits
  else if digits.length ≤ place.toNat then
    digits ++ List.replicate (place.toNat - digits.length) '0' ++ ['.', '0']
  else digits.take place.toNat ++ '.' :: digits.drop place.toNat

def writeBinary (b : Decimal.Binary) : List Char :=
  let sign := if b.negative then ['-'] else []
  if b.significand = 0 then sign ++ ['0', '.', '0']
  else
    let d := b.shortest .even
    let digits := Nat.toDigits 10 d.digits
    let place : Int := d.exponent + digits.length
    if -5 < place ∧ place ≤ 16 then sign ++ positional digits place
    else
      let e := place - 1
      let exponent := (if e < 0 then ['-'] else []) ++ Nat.toDigits 10 e.natAbs
      match digits with
      | [c] => sign ++ c :: 'e' :: exponent
      | c :: rest => sign ++ c :: '.' :: rest ++ 'e' :: exponent
      | [] => []

/-- The text of a number. JSON has none for infinities and NaN, which are written as null. -/
def writeNumber : Number → List Char
  | .whole n => (if n < 0 then ['-'] else []) ++ Nat.toDigits 10 n.natAbs
  | .real x =>
    match Decimal.Reading.of x with
    | .finite b => writeBinary b
    | _ => ['n', 'u', 'l', 'l']

mutual

def writeChars : Json → List Char
  | .null => ['n', 'u', 'l', 'l']
  | .bool true => ['t', 'r', 'u', 'e']
  | .bool false => ['f', 'a', 'l', 's', 'e']
  | .number n => writeNumber n
  | .text s => quote s
  | .array items => '[' :: writeItems items
  | .object members => '{' :: writeMembers members

def writeItems : List Json → List Char
  | [] => [']']
  | [v] => writeChars v ++ [']']
  | v :: rest => writeChars v ++ ',' :: writeItems rest

def writeMembers : List (String × Json) → List Char
  | [] => ['}']
  | [(n, v)] => quote n ++ ':' :: writeChars v ++ ['}']
  | (n, v) :: rest => quote n ++ ':' :: writeChars v ++ ',' :: writeMembers rest

end

def write (value : Json) : String := String.ofList (writeChars value)

end Json

end KubeLedger
