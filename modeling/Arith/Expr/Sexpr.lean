import Arith.Expr.Parser

/-!
# S-expressions

A writer puts atoms and parenthesised lists one after the other, with a blank between neighbours in
a list. In the indented layout every inner list begins on a line of its own, two blanks deeper than
the list around it. The layout can be changed at any time.

An operation is written as a list of its operator and its two operands, an integer as an atom. A text
is compiled to the S-expression of the expression that it is, in one line.
-/

namespace Arith

namespace Sexpr

/--
A writer: its layout, the number of open lists, and whether nothing stands in the innermost one
yet.
-/
structure Writer where
  indented : Bool := false
  depth : Nat := 0
  atListStart : Bool := true
  deriving DecidableEq, Repr

/-- A list is closed that was not opened. -/
inductive Fault where
  | notOpen
  deriving DecidableEq, Repr

def Fault.message : Fault → String
  | notOpen => "end_expression() without a matching start_expression()"

/-- What a step writes, and the writer behind it. -/
abbrev Written := List Char × Writer

namespace Writer

/-- The beginning of a line that is so many lists deep. -/
def newLine (depth : Nat) : List Char := '\n' :: List.replicate (2 * depth) ' '

/-- What stands between an item and the one before it in the same list. -/
def gap (w : Writer) : List Char := if w.atListStart then [] else [' ']

/-- Opens a list. -/
def openList (w : Writer) : Written :=
  let separator :=
    if w.indented then
      if 0 < w.depth then newLine w.depth else []
    else w.gap
  (separator ++ ['('], { w with depth := w.depth + 1, atListStart := true })

/-- Closes the innermost list. -/
def closeList (w : Writer) : Except Fault Written :=
  if w.depth = 0 then .error .notOpen
  else .ok ([')'], { w with depth := w.depth - 1, atListStart := false })

/-- Writes an atom. -/
def atom (text : List Char) (w : Writer) : Written :=
  (w.gap ++ text, { w with atListStart := false })

/-- Chooses the layout of what follows. -/
def setIndented (indented : Bool) (w : Writer) : Writer := { w with indented }

/-- Writes an expression. -/
def expr : Expr → Writer → Written
  | .constant n, w => w.atom (Numeral.write n)
  | .binary op left right, w =>
    let (opened, w1) := w.openList
    let (operator, w2) := w1.atom [op.char]
    let (leftText, w3) := expr left w2
    let (rightText, w4) := expr right w3
    (opened ++ operator ++ leftText ++ rightText ++ [')'],
      { w4 with depth := w4.depth - 1, atListStart := false })

end Writer

end Sexpr

/-- An expression as an S-expression. -/
def Expr.toSexpr (e : Expr) (indented : Bool) : List Char :=
  (Sexpr.Writer.expr e { indented }).1

/-- The S-expression of a text. -/
def compile (source : Bytes) : Except Parser.Failure (List Char) :=
  (Expr.parse source).map (Expr.toSexpr · false)

end Arith
