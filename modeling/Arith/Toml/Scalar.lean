import Arith.Toml.Text
import Arith.Toml.Value

/-!
# Scalars of TOML

Truth values, dates and times, integers and floating-point numbers. The longest numeral that stands
at a place is read; what follows it is for the reader around it to refuse. A reader of one form
gives nothing where that form does not stand.
-/

namespace Arith.Toml

/-- The characters behind a word that stands here. -/
def afterWord? (word : String) (s : List Char) : Option (List Char) :=
  if word.toList.isPrefixOf s then some (s.drop word.length) else none

/-! ## Digits -/

/-- A digit of ASCII. -/
def isDecimal (c : Char) : Bool := '0' ≤ c && c ≤ '9'

/-- The digits here, with single underscores between them. -/
def digitRun (isDigit : Char → Bool) : List Char → List Char × List Char
  | '_' :: c :: rest =>
    if isDigit c then
      let (digits, behind) := digitRun isDigit rest
      (c :: digits, behind)
    else ([], '_' :: c :: rest)
  | c :: rest =>
    if isDigit c then
      let (digits, behind) := digitRun isDigit rest
      (c :: digits, behind)
    else ([], c :: rest)
  | [] => ([], [])

/-- Digits with single underscores between them, at least one; the first is no underscore. -/
def digits? (isDigit : Char → Bool) (s : List Char) : Option (List Char × List Char) :=
  match s with
  | [] => none
  | c :: _ => if isDigit c then some (digitRun isDigit s) else none

/-- The number that digits of a base stand for. -/
def numberOf (base : Nat) (digits : List Char) : Nat :=
  digits.foldl (fun n c => base * n + (Hex.value? c).getD 0) 0

/-- A number of exactly so many digits. -/
def fixed? (width : Nat) (s : List Char) : Option (Nat × List Char) :=
  let digits := s.take width
  if digits.length = width ∧ digits.all isDecimal then some (numberOf 10 digits, s.drop width)
  else none

/-- The characters behind one that stands here. -/
def afterChar? (c : Char) : List Char → Option (List Char)
  | d :: rest => if d = c then some rest else none
  | [] => none

/-! ## Dates and times -/

/-- The digits of a second's fraction; millionths are kept, and what is below is dropped. -/
def fraction (s : List Char) : Nat × List Char :=
  match s with
  | '.' :: rest =>
    match rest.takeWhile isDecimal with
    | [] => (0, s)
    | digits =>
      let kept := digits.take 6
      (numberOf 10 (kept ++ List.replicate (6 - kept.length) '0'), rest.dropWhile isDecimal)
  | _ => (0, s)

/-- A time of day. -/
def time? (s : List Char) : Option (Time × List Char) := do
  let (hour, s) ← fixed? 2 s
  let (minute, s) ← fixed? 2 (← afterChar? ':' s)
  let (second, s) ← fixed? 2 (← afterChar? ':' s)
  if 24 ≤ hour ∨ 60 ≤ minute ∨ 60 ≤ second then none
  else
    let (micro, s) := fraction s
    return (⟨hour, minute, second, micro⟩, s)

/-- An offset from universal time, if one stands here. -/
def offset (s : List Char) : Option Int × List Char :=
  let signed (factor : Int) (rest : List Char) : Option Int × List Char :=
    let found : Option (Int × List Char) := do
      let (hour, behind) ← fixed? 2 rest
      let (minute, behind) ← fixed? 2 (← afterChar? ':' behind)
      if 24 ≤ hour ∨ 60 ≤ minute then none
      else return (factor * (60 * hour + minute : Nat), behind)
    match found with
    | some (minutes, behind) => (some minutes, behind)
    | none => (none, s)
  match s with
  | 'Z' :: rest => (some 0, rest)
  | 'z' :: rest => (some 0, rest)
  | '+' :: rest => signed 1 rest
  | '-' :: rest => signed (-1) rest
  | _ => (none, s)

/-- A date by its form; whether the calendar has it is left open. -/
def date? (s : List Char) : Option (Date × List Char) := do
  let (year, s) ← fixed? 4 s
  let (month, s) ← fixed? 2 (← afterChar? '-' s)
  let (day, s) ← fixed? 2 (← afterChar? '-' s)
  if month < 1 ∨ 12 < month ∨ day < 1 ∨ 31 < day then none
  else return (⟨year, month, day⟩, s)

/-- The time behind a date, if one stands here. -/
def timeBehind? : List Char → Option (Time × List Char)
  | c :: rest => if c = 'T' ∨ c = 't' ∨ c = ' ' then time? rest else none
  | [] => none

/-- A date, perhaps with a time behind it, or a time of day. The calendar has to have the date. -/
def moment? (s : List Char) : Option (Read Moment) :=
  match date? s with
  | some (d, rest) =>
    if !d.isValid then some (.error .malformed)
    else match timeBehind? rest with
      | some (t, rest) =>
        let (minutes, rest) := offset rest
        some (.ok (.dateTime d t minutes, rest))
      | none => some (.ok (.date d, rest))
  | none => (time? s).map fun (t, rest) => .ok (.time t, rest)

/-! ## Numbers -/

/-- An integer in a base other than ten, behind its prefix. -/
def basedInteger? (mark : Char) (base : Nat) (isDigit : Char → Bool) (s : List Char) :
    Option (Value × List Char) := do
  let s ← afterChar? '0' s
  let s ← afterChar? mark s
  let (digits, rest) ← digits? isDigit s
  return (.integer (numberOf base digits), rest)

/-- Whether a sign is negative, and the characters behind it. -/
def signOf : List Char → Bool × List Char
  | '-' :: rest => (true, rest)
  | '+' :: rest => (false, rest)
  | s => (false, s)

/-- The digits before the point: a zero alone, or digits that begin with none. -/
def wholeDigits? (s : List Char) : Option (List Char × List Char) :=
  match s with
  | '0' :: rest => some (['0'], rest)
  | _ => digits? isDecimal s

/-- A point with digits behind it, if they stand here. -/
def fractionDigits (s : List Char) : List Char × List Char :=
  match s with
  | '.' :: rest => (digits? isDecimal rest).getD ([], s)
  | _ => ([], s)

/-- An exponent, if one stands here. -/
def exponent? (s : List Char) : Option (Int × List Char) :=
  match s with
  | c :: rest =>
    if c = 'e' ∨ c = 'E' then
      let (negative, rest) := signOf rest
      (digits? isDecimal rest).map fun (digits, behind) =>
        let n : Int := numberOf 10 digits
        (if negative then -n else n, behind)
    else none
  | [] => none

/-- A decimal number: an integer, unless a fraction or an exponent follows. -/
def decimal? (s : List Char) : Option (Read Value) := do
  let (negative, unsigned) := signOf s
  let (whole, rest) ← wholeDigits? unsigned
  let (places, rest) := fractionDigits rest
  match exponent? rest, places with
  | none, [] =>
    if Numeral.digitLimit < whole.length then some (.error .numeralTooLong)
    else
      let n : Int := numberOf 10 whole
      some (.ok (.integer (if negative then -n else n), rest))
  | none, _ =>
    some (.ok (.float (.ofDecimal negative (numberOf 10 (whole ++ places)) (-places.length)), rest))
  | some (e, rest), _ =>
    some (.ok (.float (.ofDecimal negative (numberOf 10 (whole ++ places)) (e - places.length)),
      rest))

/-- An infinity, or the word for no number. -/
def specialFloat? (s : List Char) : Option (Value × List Char) :=
  let (negative, unsigned) := signOf s
  match afterWord? "inf" unsigned, afterWord? "nan" unsigned with
  | some rest, _ => some (.float (.infinite negative), rest)
  | _, some rest => some (.float .notANumber, rest)
  | _, _ => none

/-- A scalar: the first of the forms that stands here. -/
def scalar (s : List Char) : Read Value :=
  let plain (found : Option (Value × List Char)) : Option (Read Value) := found.map .ok
  let found :=
    (quotedText? true s).map (Except.map fun (text, rest) => (.text (String.ofList text), rest))
    <|> (afterWord? "true" s).map (fun rest => .ok (.boolean true, rest))
    <|> (afterWord? "false" s).map (fun rest => .ok (.boolean false, rest))
    <|> (moment? s).map (Except.map fun (m, rest) => (.moment m, rest))
    <|> plain (basedInteger? 'x' 16 (fun c => (Hex.value? c).isSome) s)
    <|> plain (basedInteger? 'b' 2 (fun c => c == '0' || c == '1') s)
    <|> plain (basedInteger? 'o' 8 (fun c => '0' ≤ c && c ≤ '7') s)
    <|> decimal? s
    <|> plain (specialFloat? s)
  found.getD (.error .malformed)

end Arith.Toml
