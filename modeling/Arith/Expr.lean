import Arith.Token

/-!
# Expressions

An expression is an integer or a binary operation on two expressions. Operators have a precedence;
the higher binds tighter.
-/

namespace Arith

/-- The binary operators. -/
inductive Operator where
  | add
  | subtract
  | multiply
  | divide
  deriving DecidableEq, Repr

namespace Operator

/-- The symbol of an operator in source texts. -/
def symbol : Operator → Symbol
  | add => .plus
  | subtract => .minus
  | multiply => .star
  | divide => .slash

/-- The character of an operator. -/
def char (op : Operator) : Char := op.symbol.char

/-- The name of an operator in outlines. -/
def label : Operator → String
  | add => "ADD"
  | subtract => "SUBTRACT"
  | multiply => "MULTIPLY"
  | divide => "DIVIDE"

/-- How tight an operator binds. -/
def precedence : Operator → Nat
  | add | subtract => 10
  | multiply | divide => 20

def all : List Operator := [add, subtract, multiply, divide]

/-- The operator that a symbol stands for. -/
def ofSymbol? (s : Symbol) : Option Operator := all.find? fun op => op.symbol == s

/-- The operator that a kind of token stands for. -/
def ofKind? : TokenKind → Option Operator
  | .symbol s => ofSymbol? s
  | _ => none

/-- The operator that a text spells. -/
def ofText? (text : List Char) : Option Operator := all.find? fun op => [op.char] == text

@[simp] theorem ofSymbol?_symbol (op : Operator) : ofSymbol? op.symbol = some op := by
  cases op <;> decide

/-- What a message says about a text that spells no operator. -/
def refusal (text : List Char) : String :=
  s!"{String.ofList (Quoted.ofText text)} is not a valid BinaryOperator"

end Operator

/-- An arithmetic expression. -/
inductive Expr where
  | constant (value : Int)
  | binary (op : Operator) (left right : Expr)
  deriving DecidableEq, Repr

namespace Expr

/-- The precedence of the outermost operator; an integer has none, which counts as 0. -/
def precedence : Expr → Nat
  | constant _ => 0
  | binary op _ _ => op.precedence

/-- The greatest number of operators that an integer stands in. -/
def depth : Expr → Nat
  | constant _ => 0
  | binary _ left right => max left.depth right.depth + 1

end Expr

end Arith
