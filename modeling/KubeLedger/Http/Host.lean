import KubeLedger.Text.Bytes
import KubeLedger.Text.Case

/- Hosts of addresses, and escapes. Each part of an address has a set of bytes that cannot stand there
   as they are; such a byte becomes a percent sign and two upper case hexadecimal digits. Names and
   values of a form keep fewer bytes, and a space becomes a plus sign.

   A host is a name, four numbers, or eight pieces in brackets. A name is written in ASCII: letters
   become small, and a label with other characters is written in the alphabet of letters and digits.
   Numbers may be written in several ways, and each host has one text. -/
namespace KubeLedger.Http

/-! ## Escapes -/

open KubeLedger.Text

def upperHexDigit (n : Nat) : Char := Char.ofNat (if n < 10 then 0x30 + n else 0x37 + n)

def escapeByte (b : UInt8) : List Char :=
  ['%', upperHexDigit (b.toNat / 16), upperHexDigit (b.toNat % 16)]

def escape (set : UInt8 → Bool) (bs : Bytes) : List Char :=
  bs.flatMap fun b => if set b then escapeByte b else [Char.ofNat b.toNat]

def isOneOf (cs : List Char) (b : UInt8) : Bool := cs.any fun c => c.toNat == b.toNat

/-- The bytes that are escaped everywhere: controls, and all that is not ASCII. -/
def controlSet (b : UInt8) : Bool := b < 0x20 || 0x7F ≤ b

def fragmentSet (b : UInt8) : Bool := controlSet b || isOneOf [' ', '"', '<', '>', '`'] b

def querySet (b : UInt8) : Bool := controlSet b || isOneOf [' ', '"', '#', '<', '>'] b

def pathSet (b : UInt8) : Bool := fragmentSet b || isOneOf ['#', '?', '{', '}'] b

def userSet (b : UInt8) : Bool :=
  pathSet b || isOneOf ['/', ':', ';', '=', '@', '[', '\\', ']', '^', '|'] b

/-- The bytes that are escaped in a segment that is appended to a path. -/
def segmentSet (b : UInt8) : Bool := pathSet b || isOneOf ['/', '%'] b

/-- Undoes escapes. A percent sign without two digits stays. -/
def unescape : Bytes → Bytes
  | 0x25 :: a :: b :: rest =>
    match hexValue? (Char.ofNat a.toNat), hexValue? (Char.ofNat b.toNat) with
    | some high, some low => UInt8.ofNat (high * 16 + low) :: unescape rest
    | _, _ => 0x25 :: unescape (a :: b :: rest)
  | c :: rest => c :: unescape rest
  | [] => []

def isAlphanumByte (b : UInt8) : Bool := (Char.ofNat b.toNat).isAlphanum && b < 0x80

def formChars (bs : Bytes) : List Char :=
  bs.flatMap fun b =>
    if b = 0x20 then ['+']
    else if isAlphanumByte b || isOneOf ['*', '-', '.', '_'] b then [Char.ofNat b.toNat]
    else escapeByte b

def formText (s : String) : String := String.ofList (formChars (encode s))

/-! ## Names -/

def labelDigit (n : Nat) : Char := Char.ofNat (if n < 26 then 0x61 + n else 0x16 + n)

/-- The largest digit that may end a number at a position, one position being thirty-six. -/
def threshold (k bias : Nat) : Nat :=
  if k ≤ bias then 1 else if bias + 26 ≤ k then 26 else k - bias

/-- The digits of a number, the lowest first, each in its own base. -/
def deltaDigits (bias k q : Nat) : Nat → List Char
  | 0 => []
  | fuel + 1 =>
    let t := threshold k bias
    if q < t then [labelDigit q]
    else labelDigit (t + (q - t) % (36 - t)) :: deltaDigits bias (k + 36) ((q - t) / (36 - t)) fuel

/-- Divides by thirty-five until at most 455 is left, and counts the positions. -/
def settle (delta k : Nat) : Nat → Nat × Nat
  | 0 => (delta, k)
  | fuel + 1 => if 455 < delta then settle (delta / 35) (k + 36) fuel else (delta, k)

/-- The bias for the next number after one was written. -/
def adapt (delta count : Nat) (first : Bool) : Nat :=
  let d := if first then delta / 700 else delta / 2
  let (d, k) := settle (d + d / count) 0 delta
  k + 36 * d / (d + 38)

structure LabelState where
  written : List Char
  delta : Nat
  bias : Nat
  handled : Nat

/-- Takes one character into account while the code points below `m` are written already. -/
def scanChar (basic m : Nat) (s : LabelState) (c : Char) : LabelState :=
  if c.toNat < m then { s with delta := s.delta + 1 }
  else if c.toNat = m then
    ⟨s.written ++ deltaDigits s.bias 36 s.delta (s.delta + 1), 0,
      adapt s.delta (s.handled + 1) (s.handled == basic), s.handled + 1⟩
  else s

/-- Writes all characters with the code points given in rising order. -/
def scanCodes (label : List Char) (basic : Nat) : List Nat → Nat → LabelState → LabelState
  | [], _, s => s
  | m :: rest, n, s =>
    let s := label.foldl (scanChar basic m) { s with delta := s.delta + (m - n) * (s.handled + 1) }
    scanCodes label basic rest (m + 1) { s with delta := s.delta + 1 }

def asciiLabel (label : List Char) : List Char :=
  if label.all fun c => c.toNat < 0x80 then label
  else
    let basic := label.filter fun c => c.toNat < 0x80
    let codes := ((label.map Char.toNat).filter fun n => 0x80 ≤ n).mergeSort.eraseDups
    let head := if basic.isEmpty then [] else basic ++ ['-']
    let s := scanCodes label basic.length codes 0x80 ⟨[], 0, 72, basic.length⟩
    "xn--".toList ++ head ++ s.written

def splitDots : List Char → List (List Char)
  | [] => [[]]
  | '.' :: rest => [] :: splitDots rest
  | c :: rest =>
    match splitDots rest with
    | part :: parts => (c :: part) :: parts
    | [] => [[c]]

def joinDots (parts : List (List Char)) : List Char := List.intercalate ['.'] parts

/-- What a character of a name is written as: nothing for invisible ones, the plain form of a wide
one, and small letters. -/
def nameChars (c : Char) : List Char :=
  let n := c.toNat
  if n = 0xAD || n = 0x200B || n = 0x2060 || n = 0xFEFF then []
  else if n = 0x3002 || n = 0xFF61 then ['.']
  else if 0xFF01 ≤ n && n ≤ 0xFF5E then lower (Char.ofNat (n - 0xFEE0))
  else lower c

def isForbidden (c : Char) : Bool :=
  let n := c.toNat
  n ≤ 0x20 || (0x7F ≤ n && n ≤ 0x9F) || isBlank c || (0xE000 ≤ n && n ≤ 0xF8FF) ||
    (0xFFF0 ≤ n && n ≤ 0xFFFF) ||
    ['#', '/', ':', '<', '>', '?', '@', '[', '\\', ']', '^', '|', '%'].contains c

def asciiName? (bs : Bytes) : Option (List Char) := do
  let s ← decode? bs
  let cs := s.toList.flatMap nameChars
  if cs.isEmpty || cs.any isForbidden then none
  else some (joinDots ((splitDots cs).map asciiLabel))

/-! ## Four numbers -/

def valueIn? (base : Nat) (cs : List Char) : Option Nat :=
  cs.foldlM
    (fun n c => (hexValue? c).bind fun d => if d < base then some (n * base + d) else none) 0

/-- One of the numbers: decimal, octal after a zero, hexadecimal after `0x`. -/
def number? : List Char → Option Nat
  | [] => none
  | '0' :: 'x' :: cs => valueIn? 16 cs
  | '0' :: 'X' :: cs => valueIn? 16 cs
  | '0' :: c :: cs => valueIn? 8 (c :: cs)
  | cs => valueIn? 10 cs

/-- The parts between dots; a last dot ends nothing. -/
def numberParts (cs : List Char) : List (List Char) :=
  match (splitDots cs).reverse with
  | [] :: rest => rest.reverse
  | parts => parts.reverse

/-- Whether a name ends in a number, so that it has to be four numbers. -/
def endsInNumber (cs : List Char) : Bool :=
  match (numberParts cs).getLast? with
  | some part => (!part.isEmpty && part.all Char.isDigit) || (number? part).isSome
  | none => false

/-- The value of up to four numbers, of which the last fills all bytes that are left. -/
def fourNumbers? (cs : List Char) : Option Nat := do
  let parts := numberParts cs
  if 4 < parts.length then none
  let numbers ← parts.mapM number?
  let last ← numbers.getLast?
  let front := numbers.dropLast
  if front.any (fun n => 255 < n) || Nat.pow 256 (4 - front.length) ≤ last then none
  return front.foldr (fun n high => high / 256 + n * 0x1000000) 0 + last

def fourNumbersText (value : Nat) : String :=
  String.intercalate "." ([3, 2, 1, 0].map fun i => toString ((value >>> (8 * i)) % 256))

/-! ## Eight pieces -/

def splitColons : List Char → List (List Char)
  | [] => [[]]
  | ':' :: rest => [] :: splitColons rest
  | c :: rest =>
    match splitColons rest with
    | part :: parts => (c :: part) :: parts
    | [] => [[c]]

/-- A decimal number below 256 without needless zeros. -/
def strictByte? (cs : List Char) : Option Nat :=
  if cs.isEmpty || 3 < cs.length || (cs.head? == some '0' && cs.length != 1) then none
  else (valueIn? 10 cs).filter fun n => n < 256

/-- The pieces that a part between colons stands for: one piece, or two for four numbers. -/
def pieces? (isLast : Bool) (cs : List Char) : Option (List Nat) :=
  if isLast && cs.contains '.' then do
    match ← (splitDots cs).mapM strictByte? with
    | [a, b, c, d] => some [a * 256 + b, c * 256 + d]
    | _ => none
  else if cs.isEmpty || 4 < cs.length then none
  else (valueIn? 16 cs).map fun n => [n]

def run? (isLast : Bool) (cs : List Char) : Option (List Nat) :=
  if cs.isEmpty then some []
  else
    let parts := splitColons cs
    ((parts.mapIdx fun i p => pieces? (isLast && i + 1 == parts.length) p).mapM id).map List.flatten

/-- Cuts at the first pair of colons. -/
def cutPair? : List Char → Option (List Char × List Char)
  | ':' :: ':' :: rest => some ([], rest)
  | c :: rest => (cutPair? rest).map fun (a, b) => (c :: a, b)
  | [] => none

/-- The eight pieces of a bracketed host. A pair of colons stands for one zero piece or more. -/
def eightPieces? (cs : List Char) : Option (List Nat) :=
  match cutPair? cs with
  | some (a, b) => do
    let front ← run? false a
    let back ← run? true b
    if 7 < front.length + back.length then none
    else some (front ++ List.replicate (8 - front.length - back.length) 0 ++ back)
  | none => (run? true cs).filter fun ps => ps.length == 8

def zeroRun (pieces : List Nat) : Nat := (pieces.takeWhile (· == 0)).length

/-- Where the first of the longest runs of two zeros or more starts, and its length. -/
def longestZeros (pieces : List Nat) : Nat × Nat :=
  (List.range pieces.length).foldl (fun best i =>
    let n := zeroRun (pieces.drop i)
    if max best.2 1 < n then (i, n) else best) (0, 0)

def pieceText (n : Nat) : String := String.ofList (Nat.toDigits 16 n)

def piecesText (pieces : List Nat) : String := String.intercalate ":" (pieces.map pieceText)

def eightPiecesText (pieces : List Nat) : String :=
  let (start, count) := longestZeros pieces
  if count = 0 then "[" ++ piecesText pieces ++ "]"
  else
    "[" ++ piecesText (pieces.take start) ++ "::" ++ piecesText (pieces.drop (start + count)) ++ "]"

/-! ## Hosts -/

def bracketed? (cs : List Char) : Option String :=
  match cs.reverse with
  | ']' :: inner => (eightPieces? (inner.reverse.drop 1)).map eightPiecesText
  | _ => none

/-- The one text of a host as it is written. -/
def hostText? (cs : List Char) : Option String :=
  if cs.head? == some '[' then bracketed? cs
  else do
    let name ← asciiName? (unescape (encode (String.ofList cs)))
    if endsInNumber name then (fourNumbers? name).map fourNumbersText
    else some (String.ofList name)

/-- A character that no host has, even where the scheme gives hosts no meaning. -/
def isForbiddenAnywhere (c : Char) : Bool :=
  c.toNat = 0 || [' ', '#', '/', ':', '<', '>', '?', '@', '[', '\\', ']', '^', '|'].contains c

/-- The text of a host where the scheme gives hosts no meaning. -/
def plainHostText? (cs : List Char) : Option String :=
  if cs.head? == some '[' then bracketed? cs
  else if cs.any isForbiddenAnywhere then none
  else some (String.ofList (escape controlSet (encode (String.ofList cs))))

end KubeLedger.Http
