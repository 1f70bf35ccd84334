import Arith.Text.Blank

/-!
# Matchers

A matcher is a test on a text as a value: it can be compared, complemented and joined with another.
A text is compared as a whole, code point by code point, so a bound may be longer than one
character. A scan tests a text of one character (`Matcher.holds`).

Beside matchers proper stand the bare tests (`bare`), which a matcher may have inside but which
cannot be complemented or joined from the left themselves.
-/

namespace Arith

/-! ## Classes of characters -/

/-- The decimal digits of ASCII. -/
def isDigit (c : Char) : Bool := '0'.toNat ≤ c.toNat && c.toNat ≤ '9'.toNat

/-- A letter of ASCII or the underscore: what a name begins with. -/
def isNameStart (c : Char) : Bool := c == '_' || c.isAlpha

/-- What a name goes on with. -/
def isNameChar (c : Char) : Bool := isNameStart c || isDigit c

/-- The four classes as tests on texts. -/
inductive TextTest where
  | blank
  | digit
  | nameStart
  | nameChar
  deriving DecidableEq, Repr

/-- Whether a text comes before another one: at the first difference, or by being its beginning. -/
def comesBefore : List Char → List Char → Bool
  | _, [] => false
  | [], _ :: _ => true
  | a :: s, b :: t => a.toNat < b.toNat || (a == b && comesBefore s t)

/-- Whether a text lies between two others. -/
def liesBetween (low high text : List Char) : Bool :=
  !comesBefore text low && !comesBefore high text

namespace TextTest

/-- Whether a text begins like a digit. -/
def startsDigit (text : List Char) : Bool := liesBetween ['0'] ['9'] text

/-- Whether a text is the underscore or lies between the letters of one case. -/
def startsName (text : List Char) : Bool :=
  text == ['_'] || liesBetween ['a'] ['z'] text || liesBetween ['A'] ['Z'] text

/-- Whether a text passes a test; a blank text has a character, and blanks only. -/
def passes : TextTest → List Char → Bool
  | blank, text => !text.isEmpty && text.all isBlank
  | digit, text => startsDigit text
  | nameStart, text => startsName text
  | nameChar, text => startsName text || startsDigit text

end TextTest

/-! ## Matchers -/

/-- A test on a text that can be compared with another. -/
inductive Matcher where
  | is (text : List Char)
  | inRange (low high : List Char)
  | inRangeExclusive (low high : List Char)
  | atLeast (low : List Char)
  | under (high : List Char)
  | anything
  | not (inner : Matcher)
  | either (left right : Matcher)
  | passing (test : TextTest)
  | bare (test : TextTest)
  deriving DecidableEq, Repr

namespace Matcher

/-- The digits of ASCII. -/
def digit : Matcher := inRange ['0'] ['9']

/-- White space. -/
def blank : Matcher := passing .blank

/-- Whether a text matches. -/
def accepts : Matcher → List Char → Bool
  | is t, text => text == t
  | inRange low high, text => liesBetween low high text
  | inRangeExclusive low high, text => !comesBefore text low && comesBefore text high
  | atLeast low, text => !comesBefore text low
  | under high, text => comesBefore text high
  | anything, _ => true
  | not inner, text => !inner.accepts text
  | either left right, text => left.accepts text || right.accepts text
  | passing test, text => test.passes text
  | bare test, text => test.passes text

/-- Whether a character matches. -/
def holds (m : Matcher) (c : Char) : Bool := m.accepts [c]

/-- The complement of a matcher; a bare test has none. -/
def complement? : Matcher → Option Matcher
  | bare _ => none
  | m => some (not m)

/-- What matches one of two; a bare test cannot stand on the left. -/
def union? : Matcher → Matcher → Option Matcher
  | bare _, _ => none
  | left, right => some (either left right)

/-! ## Matchers on characters -/

/-- Texts of one character are in the order of their code points. -/
theorem comesBefore_singleton (a b : Char) : comesBefore [a] [b] = decide (a.toNat < b.toNat) := by
  simp [comesBefore]

theorem liesBetween_singleton (low high c : Char) :
    liesBetween [low] [high] [c]
      = (decide (low.toNat ≤ c.toNat) && decide (c.toNat ≤ high.toNat)) := by
  simp only [liesBetween, comesBefore_singleton, ← decide_not, Nat.not_lt]

@[simp] theorem holds_digit (c : Char) : digit.holds c = isDigit c := by
  simp [digit, holds, accepts, liesBetween_singleton, isDigit]

@[simp] theorem holds_blank (c : Char) : blank.holds c = isBlank c := by
  simp [blank, holds, accepts, TextTest.passes]

end Matcher

end Arith
