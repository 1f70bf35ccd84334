import Arith.Expr

/-!
# Outlines

An outline has one line for every node of an expression, in the order operator, left side, right
side. A line is indented by two blanks for every operation around its node.
-/

namespace Arith.Expr

/-- The node on its own: an integer, or the name and the symbol of an operator. -/
def nodeText : Expr → List Char
  | constant n => "Constant ".toList ++ Numeral.write n
  | binary op _ _ => "Binary ".toList ++ op.label.toList ++ [' ', '(', op.char, ')']

/-- The line of a node with so many operations around it. -/
def outlineLine (depth : Nat) (e : Expr) : List Char :=
  List.replicate (2 * depth) ' ' ++ e.nodeText ++ ['\n']

/-- The lines of an expression with so many operations around it. -/
def outlineFrom (depth : Nat) : Expr → List Char
  | constant n => outlineLine depth (constant n)
  | binary op left right =>
    outlineLine depth (binary op left right)
      ++ outlineFrom (depth + 1) left ++ outlineFrom (depth + 1) right

/-- The outline of an expression. -/
def outline (e : Expr) : List Char := outlineFrom 0 e

end Arith.Expr
