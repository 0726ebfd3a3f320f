import SelectAlgebra.Toml.Text

/-!
# Dates and times of TOML

A date, a time, or a date with a time and possibly an offset.  Every part has to be in its range,
and the day has to exist in its month.
-/

namespace SelectAlgebra.Toml

open Reader

/-- A day of the calendar. -/
structure Date where
  year : Nat
  month : Nat
  day : Nat
deriving DecidableEq

/-- A time of day. -/
structure Time where
  hour : Nat
  minute : Nat
  second : Nat
  nanosecond : Nat
deriving DecidableEq

/-- A date, a time or both.  The offset from universal time is in minutes. -/
structure DateTime where
  date : Option Date
  time : Option Time
  offset : Option Int
deriving DecidableEq

/-- A number of exactly so many digits in a range. -/
def fixedNumber (digits low high : Nat) : Reader Nat := do
  let n := numeral 10 (← exactly Char.isDigit digits)
  require (low ≤ n && n ≤ high)
  return n

/-! ## Dates -/

/-- The year has a 29th of February. -/
def isLeapYear (year : Nat) : Bool :=
  year % 4 == 0 && (year % 100 != 0 || year % 400 == 0)

/-- The number of days of a month. -/
def daysInMonth (year month : Nat) : Nat :=
  if month = 2 then (if isLeapYear year then 29 else 28)
  else if month = 4 ∨ month = 6 ∨ month = 9 ∨ month = 11 then 30
  else 31

/-- A date. -/
def date : Reader Date := do
  let year ← fixedNumber 4 0 9999
  char '-'
  let month ← fixedNumber 2 1 12
  char '-'
  let day ← fixedNumber 2 1 31
  require (day ≤ daysInMonth year month)
  return ⟨year, month, day⟩

/-! ## Times -/

/-- A fraction of a second in nanoseconds; further digits are left out. -/
def secondFraction : Reader Nat := do
  char '.'
  let digits ← run1 Char.isDigit
  let kept := digits.take 9
  return numeral 10 kept * Nat.pow 10 (9 - kept.length)

/-- A time of day.  A minute may have a leap second. -/
def time : Reader Time := do
  let hour ← fixedNumber 2 0 23
  char ':'
  let minute ← fixedNumber 2 0 59
  char ':'
  let second ← fixedNumber 2 0 60
  let fraction ← optional secondFraction
  return ⟨hour, minute, second, fraction.getD 0⟩

/-- An offset from universal time. -/
def offset : Reader Int :=
  (do char 'Z' <|> char 'z'; return 0) <|> (do
    let negative ← (do char '-'; return true) <|> (do char '+'; return false)
    let hour ← fixedNumber 2 0 23
    char ':'
    let minute ← fixedNumber 2 0 59
    return if negative then -(hour * 60 + minute : Nat) else (hour * 60 + minute : Nat))

/-! ## Both -/

/-- What may follow a date: a separator, a time and an offset if there is one. -/
def timeOfDate : Reader (Time × Option Int) := do
  char 'T' <|> char 't' <|> char ' '
  let t ← time
  return (t, ← optional offset)

/-- A date, a time or both. -/
def dateTime : Reader DateTime :=
  (do
    let d ← date
    match ← optional timeOfDate with
    | some (t, o) => return ⟨some d, some t, o⟩
    | none => return ⟨some d, none, none⟩) <|>
  (do return ⟨none, some (← time), none⟩)

end SelectAlgebra.Toml
