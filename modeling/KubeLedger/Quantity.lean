import KubeLedger.Decimal
import KubeLedger.Text.Case

/- Resource quantities such as `250m`, `129e6` or `123Mi`: a number and a suffix that scales it. The
   value is the number times the scale of the suffix, in cores or bytes. -/
namespace KubeLedger.Quantity

structure Suffix where
  text : List Char
  scale : Float

/-- The binary suffixes, tried first. -/
def binarySuffixes : List Suffix :=
  [⟨['K', 'i'], 1024⟩, ⟨['M', 'i'], 1048576⟩, ⟨['G', 'i'], 1073741824⟩,
   ⟨['T', 'i'], 1099511627776⟩, ⟨['P', 'i'], 1125899906842624⟩,
   ⟨['E', 'i'], 1152921504606846976⟩]

def decimalSuffixes : List Suffix :=
  [⟨['n'], 1e-9⟩, ⟨['u'], 1e-6⟩, ⟨['m'], 1e-3⟩, ⟨['k'], 1e3⟩, ⟨['M'], 1e6⟩, ⟨['G'], 1e9⟩,
   ⟨['T'], 1e12⟩, ⟨['P'], 1e15⟩, ⟨['E'], 1e18⟩]

def strip? (ending cs : List Char) : Option (List Char) :=
  if ending.isSuffixOf cs then some (cs.take (cs.length - ending.length)) else none

/-- Whether a decimal suffix may follow the number: it is not empty and does not end in the letter
of an exponent. -/
def takesSuffix (number : List Char) : Bool :=
  match number.getLast? with
  | some c => c != 'e' && c != 'E'
  | none => false

def splitSuffix (cs : List Char) : List Char × Float :=
  let binary := binarySuffixes.findSome? fun s => (strip? s.text cs).map fun n => (n, s.scale)
  let decimal := decimalSuffixes.findSome? fun s =>
    ((strip? s.text cs).filter takesSuffix).map fun n => (n, s.scale)
  (binary.or decimal).getD (cs, 1)

/-- The value of a quantity; its number has to be finite. White space around it is ignored. -/
def readChars? (cs : List Char) : Option Float :=
  let (number, scale) := splitSuffix (Text.trimChars cs)
  match Decimal.readChars? number with
  | some x => if Decimal.isFinite x then some (x * scale) else none
  | none => none

def read? (s : String) : Option Float := readChars? s.toList

structure Invalid where
  text : String

def Invalid.message (e : Invalid) : String := "Invalid quantity: '" ++ e.text ++ "'"

/-- The value of a quantity, or the refused text. -/
def read (s : String) : Except Invalid Float :=
  match read? s with
  | some x => .ok x
  | none => .error ⟨s⟩

end KubeLedger.Quantity
