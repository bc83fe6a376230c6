import KubeLedger.Decimal

/- Points in time as RFC 3339 texts and as milliseconds since 1970. A text has a date, a time with
   an optional fraction, and an offset from universal time. The date must exist in the calendar;
   second 60 stands for a leap second and counts as the first of the next minute. -/
namespace KubeLedger.Timestamp

/-- Days from 1970-01-01 to a day of the Gregorian calendar. Years start in March here, so that a
leap day is the last day of its year. -/
def daysFromCivil (year month day : Nat) : Int :=
  let y : Int := if month ≤ 2 then (year : Int) - 1 else year
  let era := y / 400
  let yearOfEra := y % 400
  let dayOfYear : Int := (153 * ((month + 9) % 12) + 2) / 5 + day - 1
  let dayOfEra := yearOfEra * 365 + yearOfEra / 4 - yearOfEra / 100 + dayOfYear
  era * 146097 + dayOfEra - 719468

def isLeap (year : Nat) : Bool := year % 4 == 0 && (year % 100 != 0 || year % 400 == 0)

def daysInMonth (year month : Nat) : Nat :=
  if month = 2 then (if isLeap year then 29 else 28)
  else if month = 4 ∨ month = 6 ∨ month = 9 ∨ month = 11 then 30
  else 31

/-- A number of exactly `count` digits at the front. -/
def readDigits? (count : Nat) (cs : List Char) : Option (Nat × List Char) :=
  let ds := cs.take count
  if ds.length = count ∧ ds.all Char.isDigit then
    some (Decimal.natOfDigits ds, cs.drop count)
  else none

/-- One of the given characters at the front. -/
def readOne? (allowed : List Char) : List Char → Option (List Char)
  | c :: rest => if allowed.contains c then some rest else none
  | [] => none

/-- The milliseconds of a fraction of a second, if a point follows. -/
def readMillis? : List Char → Option (Nat × List Char)
  | '.' :: rest =>
    let (ds, rest) := Decimal.spanDigits rest
    if ds.isEmpty then none
    else some (Decimal.natOfDigits ((ds ++ ['0', '0', '0']).take 3), rest)
  | rest => some (0, rest)

/-- The offset from universal time in minutes. -/
def readOffset? : List Char → Option (Int × List Char)
  | 'Z' :: rest => some (0, rest)
  | 'z' :: rest => some (0, rest)
  | sign :: rest => do
    let negative ←
      if sign = '+' then some false
      else if sign = '-' ∨ sign = '−' then some true
      else none
    let (hours, rest) ← readDigits? 2 rest
    let rest ← readOne? [':'] rest
    let (minutes, rest) ← readDigits? 2 rest
    if 59 < minutes ∨ 23 < hours then none
    let offset : Int := hours * 60 + minutes
    return (if negative then -offset else offset, rest)
  | [] => none

def readChars? (cs : List Char) : Option Int := do
  let (year, cs) ← readDigits? 4 cs
  let cs ← readOne? ['-'] cs
  let (month, cs) ← readDigits? 2 cs
  let cs ← readOne? ['-'] cs
  let (day, cs) ← readDigits? 2 cs
  let cs ← readOne? ['T', 't', ' '] cs
  let (hour, cs) ← readDigits? 2 cs
  let cs ← readOne? [':'] cs
  let (minute, cs) ← readDigits? 2 cs
  let cs ← readOne? [':'] cs
  let (second, cs) ← readDigits? 2 cs
  let (millis, cs) ← readMillis? cs
  let (offset, cs) ← readOffset? cs
  if !cs.isEmpty then none
  if month = 0 ∨ 12 < month ∨ day = 0 ∨ daysInMonth year month < day then none
  if 23 < hour ∨ 59 < minute ∨ 60 < second then none
  let minutes : Int := daysFromCivil year month day * 1440 + hour * 60 + minute - offset
  return (minutes * 60 + second) * 1000 + millis

/-- The milliseconds since 1970 of the point in time that a text names. -/
def read? (s : String) : Option Int64 := (readChars? s.toList).map Int64.ofInt

end KubeLedger.Timestamp
