import Arith.Text.Numeral

/-!
# Dates and times

A date, a time of day, or both together, then perhaps with the offset of the place from universal
time. A moment has two texts: one for people, and one by its parts, which is used inside lists and
tables.
-/

namespace Arith.Toml

/-- A day of the calendar. -/
structure Date where
  year : Nat
  month : Nat
  day : Nat
  deriving DecidableEq, Repr

/-- A time of day. -/
structure Time where
  hour : Nat
  minute : Nat
  second : Nat
  micro : Nat
  deriving DecidableEq, Repr

/-- A date, a time of day, or both with an offset in minutes, if one is given. -/
inductive Moment where
  | date (d : Date)
  | time (t : Time)
  | dateTime (d : Date) (t : Time) (offset : Option Int)
  deriving DecidableEq, Repr

/-- A number in at least so many digits. -/
def padded (width n : Nat) : List Char :=
  let digits := Numeral.writeNat n
  List.replicate (width - digits.length) '0' ++ digits

namespace Date

/-- Whether a year has a leap day. -/
def isLeap (year : Nat) : Bool := year % 4 == 0 && (year % 100 != 0 || year % 400 == 0)

/-- The number of days of a month. -/
def daysIn (year month : Nat) : Nat :=
  if month = 2 then (if isLeap year then 29 else 28)
  else if month = 4 ∨ month = 6 ∨ month = 9 ∨ month = 11 then 30
  else 31

/-- Whether the calendar has a date. There is no year 0. -/
def isValid (d : Date) : Bool :=
  1 ≤ d.year && 1 ≤ d.month && d.month ≤ 12 && 1 ≤ d.day && d.day ≤ daysIn d.year d.month

def toText (d : Date) : List Char :=
  padded 4 d.year ++ ['-'] ++ padded 2 d.month ++ ['-'] ++ padded 2 d.day

end Date

namespace Time

def toText (t : Time) : List Char :=
  padded 2 t.hour ++ [':'] ++ padded 2 t.minute ++ [':'] ++ padded 2 t.second
    ++ if t.micro = 0 then [] else '.' :: padded 6 t.micro

/-- The parts of a time, without zeros for the second and what is below it at the end. -/
def parts (t : Time) : List Nat :=
  if t.micro ≠ 0 then [t.hour, t.minute, t.second, t.micro]
  else if t.second ≠ 0 then [t.hour, t.minute, t.second]
  else [t.hour, t.minute]

end Time

namespace Moment

/-- An offset in hours and minutes with its sign. -/
def offsetText (minutes : Int) : List Char :=
  (if minutes < 0 then '-' else '+')
    :: padded 2 (minutes.natAbs / 60) ++ [':'] ++ padded 2 (minutes.natAbs % 60)

/-- A moment for people. -/
def toText : Moment → List Char
  | date d => d.toText
  | time t => t.toText
  | dateTime d t offset =>
    d.toText ++ [' '] ++ t.toText ++ match offset with
      | some minutes => offsetText minutes
      | none => []

/-- A name with its parts in parentheses. -/
def byParts (name : String) (parts : List (List Char)) : List Char :=
  name.toList ++ ['('] ++ [',', ' '].intercalate parts ++ [')']

/-- An offset by its parts: whole days, which may be negative, and the seconds beyond them. -/
def offsetParts (minutes : Int) : List Char :=
  if minutes = 0 then "datetime.timezone.utc".toList
  else
    let seconds := "seconds=".toList ++ Numeral.write (minutes * 60 % 86400)
    let parts := if minutes < 0 then ["days=-1".toList, seconds] else [seconds]
    byParts "datetime.timezone" [byParts "datetime.timedelta" parts]

/-- A moment by its parts. -/
def toPartsText : Moment → List Char
  | date d => byParts "datetime.date" ([d.year, d.month, d.day].map Numeral.writeNat)
  | time t => byParts "datetime.time" (t.parts.map Numeral.writeNat)
  | dateTime d t offset =>
    byParts "datetime.datetime" (([d.year, d.month, d.day] ++ t.parts).map Numeral.writeNat
      ++ match offset with
        | some minutes => ["tzinfo=".toList ++ offsetParts minutes]
        | none => [])

end Moment

end Arith.Toml
