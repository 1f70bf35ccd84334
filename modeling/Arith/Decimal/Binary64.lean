import Arith.Text.Numeral

/-!
# Floating-point numbers of 64 bits

A decimal is read as the nearest number of 64 bits, and of two that are equally near as the one
with the even significand. A number is written with the fewest digits that read back as it; of the
shortest decimals that do, the one nearest to it is taken. All of it is exact arithmetic on natural
numbers.

The decimal point is written in its place for numbers from 0.0001 on and below 10^16; all others
have an exponent of at least two digits.
-/

namespace Arith

/-- A number `± significand · 2 ^ exponent`, an infinity, or no number. -/
inductive Binary64 where
  | finite (negative : Bool) (significand : Nat) (exponent : Int)
  | infinite (negative : Bool)
  | notANumber
  deriving DecidableEq, Repr

namespace Binary64

/-- The least exponent, that of the numbers nearest to zero. -/
def minExponent : Int := -1074

/-- The greatest exponent. -/
def maxExponent : Int := 971

/-- Significands lie below this. -/
def significandLimit : Nat := Nat.pow 2 53

/-- A quotient as a natural number: rounded to the nearest, and to the even one in the middle. -/
def roundDiv (num den : Nat) : Nat :=
  let q := num / den
  let twice := 2 * (num % den)
  if twice < den then q
  else if den < twice then q + 1
  else q + q % 2

/-- `n · b ^ e` for a non-negative exponent, and `n` for a negative one. -/
def raise (n b : Nat) (e : Int) : Nat := n * Nat.pow b e.toNat

/-- The positive number nearest to a quotient. -/
def ofQuotient (negative : Bool) (num den : Nat) : Binary64 :=
  let size : Int := (Nat.log2 num : Int) - Nat.log2 den
  let scaled (e : Int) : Nat × Nat := (raise num 2 (-e), raise den 2 e)
  let low := size - 53
  let fits := (scaled low).1 / (scaled low).2 < significandLimit
  let exponent := max minExponent (if fits then low else low + 1)
  let (n, d) := scaled exponent
  let m := roundDiv n d
  let (m, exponent) :=
    if m = significandLimit then (significandLimit / 2, exponent + 1) else (m, exponent)
  if maxExponent < exponent then infinite negative else finite negative m exponent

/-- The number nearest to `digits · 10 ^ e`. -/
def ofDecimal (negative : Bool) (digits : Nat) (e : Int) : Binary64 :=
  let places : Int := (Numeral.writeNat digits).length
  if digits = 0 ∨ places + e < -330 then finite negative 0 minExponent
  else if 310 < places + e then infinite negative
  else ofQuotient negative (raise digits 10 e) (raise 1 10 (-e))

/-! ## The shortest decimal -/

/-- A decimal `digits · 10 ^ exponent`. -/
structure Decimal where
  digits : Nat
  exponent : Int
  deriving DecidableEq, Repr

/--
The decimal with steps of `10 ^ step` that is nearest to `m · 2 ^ e`, if it reads back as that. A
decimal reads back if it lies less than half a step of the significand away, or exactly half a step
and the significand is even. Below a power of two the steps are half as long.
-/
def onGrid? (m : Nat) (e : Int) (step : Int) : Option Decimal :=
  let scale (quarters : Nat) : Nat := raise (raise quarters 2 (e - 2)) 10 (-step)
  let unit := raise (raise 1 2 (2 - e)) 10 step
  let low := scale (if m = significandLimit / 2 ∧ minExponent < e then 4 * m - 1 else 4 * m - 2)
  let high := scale (4 * m + 2)
  let value := scale (4 * m)
  let readsBack (c : Nat) : Bool :=
    if m % 2 = 0 then low ≤ c * unit && c * unit ≤ high
    else low < c * unit && c * unit < high
  let nearest := roundDiv value unit
  let other := if nearest * unit ≤ value then nearest + 1 else nearest - 1
  if readsBack nearest then some ⟨nearest, step⟩
  else if readsBack other then some ⟨other, step⟩
  else none

/-- The exponent of the first digit of `m · 2 ^ e`. -/
def leadingExponent (m : Nat) (e : Int) : Int :=
  let shift : Int := 400
  let scaled := raise (raise m 10 shift) 2 e / raise 1 2 (-e)
  ((Numeral.writeNat scaled).length : Int) - 1 - shift

/-- The shortest decimal that reads back as `m · 2 ^ e`. -/
def shortest (m : Nat) (e : Int) : Decimal :=
  let first := leadingExponent m e
  let found := (List.range 17).findSome? fun (more : Nat) => onGrid? m e (first - more)
  found.getD ⟨raise m 2 e, 0⟩

/-! ## Text -/

/-- The digits of a decimal without zeros at the end, and the exponent of the first one. -/
def significantDigits (d : Decimal) : List Char × Int :=
  let digits := Numeral.writeNat d.digits
  ((digits.reverse.dropWhile (· == '0')).reverse, d.exponent + digits.length - 1)

/-- An exponent in at least two digits, with its sign. -/
def writeExponent (e : Int) : List Char :=
  let digits := Numeral.writeNat e.natAbs
  (if e < 0 then '-' else '+') :: List.replicate (2 - digits.length) '0' ++ digits

/-- Digits, the first of which has an exponent, as a numeral. -/
def layout (digits : List Char) (e : Int) : List Char :=
  if -4 ≤ e ∧ e < 0 then
    '0' :: '.' :: List.replicate (e.natAbs - 1) '0' ++ digits
  else if 0 ≤ e ∧ e < 16 then
    let before := e.toNat + 1
    let zeros := List.replicate (before - digits.length) '0'
    let after := digits.drop before
    digits.take before ++ zeros ++ ['.'] ++ if after.isEmpty then ['0'] else after
  else
    match digits with
    | [] => []
    | first :: more =>
      first :: (if more.isEmpty then [] else '.' :: more) ++ 'e' :: writeExponent e

/-- A number as text. -/
def toText : Binary64 → List Char
  | notANumber => "nan".toList
  | infinite negative => if negative then "-inf".toList else "inf".toList
  | finite negative m e =>
    let sign := if negative then ['-'] else []
    if m = 0 then sign ++ "0.0".toList
    else
      let (digits, first) := significantDigits (shortest m e)
      sign ++ layout digits first

end Binary64

end Arith
