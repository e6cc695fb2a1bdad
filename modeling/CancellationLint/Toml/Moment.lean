import CancellationLint.Toml.Scalar

/-! # Dates and times of a TOML document

A moment is a date, a time of day, or both with an offset perhaps. The readers give the rest after
what they read. -/

namespace CancellationLint.Toml

/-- Two digits. -/
def twoDigits? : List Char → Option (Nat × List Char)
  | a :: b :: rest =>
    if a.isDigit && b.isDigit then
      some ((a.toNat - '0'.toNat) * 10 + (b.toNat - '0'.toNat), rest)
    else none
  | _ => none

/-- Two digits that make a number from `low` to `high`. -/
def inRange? (low high : Nat) (cs : List Char) : Option (Nat × List Char) :=
  (twoDigits? cs).filter fun r => low ≤ r.1 && r.1 ≤ high

def after? (mark : Char) : List Char → Option (List Char)
  | c :: rest => if c = mark then some rest else none
  | [] => none

def isLeapYear (year : Nat) : Bool := year % 4 = 0 && (year % 100 ≠ 0 || year % 400 = 0)

def daysOfMonth (year month : Nat) : Nat :=
  if month = 2 then if isLeapYear year then 29 else 28
  else if month = 4 || month = 6 || month = 9 || month = 11 then 30
  else 31

/-- A date: a year of four digits, a month and a day that it has. -/
def date? (cs : List Char) : Option (List Char) := do
  let (century, cs) ← twoDigits? cs
  let (year, cs) ← twoDigits? cs
  let (month, cs) ← inRange? 1 12 (← after? '-' cs)
  let (_, cs) ← inRange? 1 (daysOfMonth (century * 100 + year) month) (← after? '-' cs)
  return cs

/-- The fraction of a second, if there is a point. -/
def secondFraction? : List Char → Option (List Char)
  | '.' :: rest => if (rest.head?).any Char.isDigit then some (rest.dropWhile Char.isDigit) else none
  | cs => some cs

/-- The seconds, if there are any. A minute may have a leap second. -/
def seconds? : List Char → Option (List Char)
  | ':' :: rest => (inRange? 0 60 rest).bind fun r => secondFraction? r.2
  | cs => some cs

/-- Hours and minutes. -/
def clock? (cs : List Char) : Option (List Char) := do
  let (_, cs) ← inRange? 0 23 cs
  let (_, cs) ← inRange? 0 59 (← after? ':' cs)
  return cs

/-- A time of day. -/
def time? (cs : List Char) : Option (List Char) := (clock? cs).bind seconds?

/-- What may follow a date and a time: nothing, the mark of universal time, or hours and minutes. -/
def isOffset : List Char → Bool
  | [] => true
  | ['Z'] | ['z'] => true
  | '+' :: cs | '-' :: cs => clock? cs = some []
  | _ => false

def isDate (word : List Char) : Bool := date? word = some []

/-- A date and a time are divided by a letter or by a space. -/
def isMoment (word : List Char) : Bool :=
  match date? word with
  | some [] => true
  | some (mark :: rest) =>
    (mark = 'T' || mark = 't' || mark = ' ') && (time? rest).any isOffset
  | none => time? word = some []

end CancellationLint.Toml
