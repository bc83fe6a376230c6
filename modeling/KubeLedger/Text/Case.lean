import KubeLedger.Text.CaseTable

/- Classes and forms of characters over all of Unicode. One letter may lower to two characters, and an
   upper case letter without a lower case form stands for itself, so lower case text can still hold
   upper case letters. Snake case is for the enumeration words that a cluster reports:
   `ContainersReady` becomes `containers_ready`. Only separators are added: each upper case letter is
   replaced by its lower case form, hyphens and blanks become underscores, and everything else stands
   as it is. -/
namespace KubeLedger.Text

def listed (runs : List Run) (n : Nat) : Bool :=
  runs.any fun r => r.holds n

/-- The property Uppercase of a character. -/
def isUpper (c : Char) : Bool := listed upperRuns c.toNat

/-- The property Lowercase of a character. -/
def isLower (c : Char) : Bool := listed lowerRuns c.toNat

/-- Upper, lower and title case letters. -/
def isCased (c : Char) : Bool := isUpper c || isLower c || listed titleRuns c.toNat

/-- Marks that do not interrupt a word for the rule of the final sigma. -/
def isCaseIgnorable (c : Char) : Bool := listed ignorableRuns c.toNat

/-- The lower case form of a character, whatever stands around it. -/
def lower (c : Char) : List Char :=
  if c.toNat = 0x130 then ['i', Char.ofNat 0x307]
  else
    match caseRuns.find? fun r => r.run.holds c.toNat with
    | some r => [Char.ofNat (c.toNat + r.shift).toNat]
    | none => [c]

/-- Whether a letter directly precedes, looking through ignorable marks; `before` is read
backwards. -/
def lettersBefore (before : List Char) : Bool :=
  match before.dropWhile isCaseIgnorable with
  | c :: _ => isCased c
  | [] => false

/-- Whether a letter directly follows, looking through ignorable marks. -/
def lettersAfter (after : List Char) : Bool :=
  match after.dropWhile isCaseIgnorable with
  | c :: _ => isCased c
  | [] => false

/-- Lower case of a text whose characters so far, read backwards, are `before`. A capital sigma that
ends a word takes its final form. -/
def lowerFrom (before : List Char) : List Char → List Char
  | [] => []
  | c :: rest =>
    (if c.toNat = 0x3A3 then
      [if lettersBefore before && !lettersAfter rest then Char.ofNat 0x3C2 else Char.ofNat 0x3C3]
    else lower c) ++ lowerFrom (c :: before) rest

def lowercase (s : String) : String := String.ofList (lowerFrom [] s.toList)

/-! ## Snake case -/

/-- Whether an underscore goes before an upper case letter. It starts a word after a lower case
letter or a digit, and after an upper case letter when a lower case one follows, like the `R` of
`PodIPReady`. -/
def startsWord (previous next : Option Char) : Bool :=
  match previous with
  | none => false
  | some p =>
    if p = '_' ∨ p = '-' ∨ p = ' ' then false
    else if isLower p || p.isDigit then true
    else if isUpper p then next.any isLower
    else false

/-- The snake case of one character between its neighbours. -/
def snakeChar (previous : Option Char) (c : Char) (next : Option Char) : List Char :=
  if isUpper c then
    if startsWord previous next then '_' :: lower c else lower c
  else if c = '-' ∨ c = ' ' then ['_']
  else [c]

/-- The snake case of the characters that follow `previous`. -/
def snakeFrom (previous : Option Char) : List Char → List Char
  | [] => []
  | c :: rest => snakeChar previous c rest.head? ++ snakeFrom (some c) rest

def snake (s : String) : String := String.ofList (snakeFrom none s.toList)

/-! ## White space -/

def isBlank (c : Char) : Bool :=
  let n := c.toNat
  (9 ≤ n && n ≤ 13) || n == 0x20 || n == 0x85 || n == 0xA0 || n == 0x1680 ||
    (0x2000 ≤ n && n ≤ 0x200A) || n == 0x2028 || n == 0x2029 || n == 0x202F || n == 0x205F ||
    n == 0x3000

def trimChars (cs : List Char) : List Char :=
  ((cs.dropWhile isBlank).reverse.dropWhile isBlank).reverse

/-- The text without white space at its start and its end. -/
def trim (s : String) : String := String.ofList (trimChars s.toList)

end KubeLedger.Text
