/- Bytes and text. UTF-8 is read strictly, where a malformed sequence refuses the whole text, or
   leniently, where each longest malformed part becomes one replacement character. Hexadecimal is
   two lower case digits per byte. -/
namespace KubeLedger.Text

abbrev Bytes := List UInt8

def encode (s : String) : Bytes := s.toUTF8.data.toList

/-- A continuation byte of UTF-8. -/
def isTail (b : UInt8) : Bool := 0x80 ≤ b && b ≤ 0xBF

def tailBits (b : UInt8) : Nat := b.toNat % 64

/-- What the bytes after a lead byte make of it: a character, or none if the sequence is malformed,
and how many of them belong to it. -/
def sequenceAfter (lead : UInt8) (rest : Bytes) : Option Char × Nat :=
  let long (low high : UInt8) (bits tails : Nat) : Option Char × Nat :=
    match rest with
    | b₁ :: more =>
      if !(low ≤ b₁ && b₁ ≤ high) then (none, 0)
      else
        let bits₁ := bits * 64 + tailBits b₁
        if tails = 1 then (some (Char.ofNat bits₁), 1)
        else
          match more with
          | b₂ :: more =>
            if !isTail b₂ then (none, 1)
            else
              let bits₂ := bits₁ * 64 + tailBits b₂
              if tails = 2 then (some (Char.ofNat bits₂), 2)
              else
                match more with
                | b₃ :: _ =>
                  if !isTail b₃ then (none, 2)
                  else (some (Char.ofNat (bits₂ * 64 + tailBits b₃)), 3)
                | [] => (none, 2)
          | [] => (none, 1)
    | [] => (none, 0)
  if lead < 0x80 then (some (Char.ofNat lead.toNat), 0)
  else if lead < 0xC2 then (none, 0)
  else if lead < 0xE0 then long 0x80 0xBF (lead.toNat % 32) 1
  else if lead = 0xE0 then long 0xA0 0xBF 0 2
  else if lead = 0xED then long 0x80 0x9F 13 2
  else if lead < 0xF0 then long 0x80 0xBF (lead.toNat % 16) 2
  else if lead = 0xF0 then long 0x90 0xBF 0 3
  else if lead < 0xF4 then long 0x80 0xBF (lead.toNat % 8) 3
  else if lead = 0xF4 then long 0x80 0x8F 4 3
  else (none, 0)

/-- The characters that the bytes hold, `none` for each longest malformed part. -/
def characters : Bytes → List (Option Char)
  | [] => []
  | b :: rest =>
    let (c, n) := sequenceAfter b rest
    c :: characters (rest.drop n)
termination_by bs => bs.length
decreasing_by simp only [List.length_drop, List.length_cons]; omega

/-- The text whose UTF-8 form the bytes are, if they are one. -/
def decode? (bs : Bytes) : Option String :=
  ((characters bs).mapM id).map String.ofList

/-- The text of the bytes, with U+FFFD for each malformed part. -/
def decodeLossy (bs : Bytes) : String :=
  String.ofList ((characters bs).map fun c => c.getD (Char.ofNat 0xFFFD))

def hexDigit (n : Nat) : Char :=
  Char.ofNat (if n < 10 then 0x30 + n else 0x57 + n)

/-- Two digits per byte, the high one first. -/
def hexChars (bs : Bytes) : List Char :=
  bs.flatMap fun b => [hexDigit (b.toNat / 16), hexDigit (b.toNat % 16)]

def hex (bs : Bytes) : String := String.ofList (hexChars bs)

/-- The value of a hexadecimal digit of either case. -/
def hexValue? (c : Char) : Option Nat :=
  if '0' ≤ c ∧ c ≤ '9' then some (c.toNat - 0x30)
  else if 'a' ≤ c ∧ c ≤ 'f' then some (c.toNat - 0x57)
  else if 'A' ≤ c ∧ c ≤ 'F' then some (c.toNat - 0x37)
  else none

/-- The bytes that pairs of hexadecimal digits stand for. -/
def unhexChars? : List Char → Option Bytes
  | [] => some []
  | [_] => none
  | a :: b :: rest => do
    let high ← hexValue? a
    let low ← hexValue? b
    return UInt8.ofNat (high * 16 + low) :: (← unhexChars? rest)

def unhex? (s : String) : Option Bytes := unhexChars? s.toList

end KubeLedger.Text
