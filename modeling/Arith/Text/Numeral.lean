import Arith.Text.Blank
import Arith.Text.DecimalDigit
import Arith.Text.Quoted

/-!
# Decimal numerals

`write` shows an integer in decimal digits. `read` takes more than `write` shows: blanks around the
numeral, a sign of either kind, single underscores between digits, and digits of every script.

Reading costs time that grows with the square of the length, so a numeral of more than
`digitLimit` digits is refused. The digits are counted as soon as the run of digits ends, before
what follows it is looked at.
-/

namespace Arith.Numeral

/-- Why a text is not read as an integer. -/
inductive Fault where
  /-- It has more digits than `digitLimit`. -/
  | tooLong
  | invalid (text : List Char)
  deriving DecidableEq, Repr

/-- The number of digits up to which numerals are read. -/
def digitLimit : Nat := 4300

/-- The number of characters of a refused text that a message shows, its quotes included. -/
def shownLength : Nat := 200

namespace Fault

/-- What a message says; a numeral that is too long has none. -/
def message? : Fault → Option String
  | tooLong => none
  | invalid text =>
    some ("invalid literal for int() with base 10: "
      ++ String.ofList ((Quoted.ofText text).take shownLength))

end Fault

/-- Blanks that may stand around a numeral: all but the information separators of ASCII. -/
def isPadding (c : Char) : Bool := isBlank c && !(0x1C ≤ c.toNat && c.toNat ≤ 0x1F)

/-- The run of digits, with single underscores between them, at the front of a text. -/
structure Run where
  digits : List Nat
  rest : List Char
  deriving DecidableEq, Repr

/--
The run of digits behind a digit (`afterDigit`) or behind an underscore, where a digit has to
follow. There is none if an underscore has no digit behind it.
-/
def run? (afterDigit : Bool) : List Char → Option Run
  | [] => if afterDigit then some ⟨[], []⟩ else none
  | c :: rest =>
    match DecimalDigit.value? c with
    | some d => (run? true rest).map fun r => ⟨d :: r.digits, r.rest⟩
    | none =>
      if !afterDigit then none
      else if c = '_' then run? false rest
      else some ⟨[], c :: rest⟩

/-- The number that some digits stand for. -/
def ofDigits (digits : List Nat) : Nat := digits.foldl (fun n d => 10 * n + d) 0

/-- The sign of a numeral, and what follows it. -/
def sign : List Char → Int × List Char
  | '-' :: rest => (-1, rest)
  | '+' :: rest => (1, rest)
  | text => (1, text)

/-- The integer that a text stands for. -/
def read (text : List Char) : Except Fault Int :=
  let (factor, unsigned) := sign (text.dropWhile isPadding)
  match run? false unsigned with
  | none => .error (.invalid text)
  | some r =>
    if digitLimit < r.digits.length then .error .tooLong
    else if r.rest.all isPadding then .ok (factor * ofDigits r.digits)
    else .error (.invalid text)

/-- The character for a digit below ten. -/
def digitChar (d : Nat) : Char := Char.ofNat (0x30 + d)

/-- A natural number in decimal digits, without leading zeros. -/
def writeNat (n : Nat) : List Char :=
  if n < 10 then [digitChar n] else writeNat (n / 10) ++ [digitChar (n % 10)]

/-- An integer in decimal digits, with a sign if it is negative. -/
def write (n : Int) : List Char :=
  if n < 0 then '-' :: writeNat n.natAbs else writeNat n.natAbs

end Arith.Numeral
