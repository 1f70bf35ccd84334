import Arith.Expr.Parser

/-!
# Parsing with checks

A parser takes some things for granted: it consumes a token only where one is ahead, it makes a
literal only of a token that carries an integer, and it does not go on climbing before it has
consumed something. Here are the same steps with all of this checked, and an alarm where it does not
hold.

The checked climbing also looks ahead behind every operand, and calls itself only for an operator
that binds tighter than the last one.
-/

namespace Arith.Parser

/-- Why a step fails that checks what it takes for granted. -/
inductive Alarm where
  /-- The step fails for a reason of its own. -/
  | failure (f : Failure)
  /-- A token is to be consumed, but none is ahead. -/
  | nothingAhead
  /-- A literal is to be made of a token that carries no integer. -/
  | noInteger
  /-- Climbing is to go on, but nothing was consumed. -/
  | noProgress
  deriving DecidableEq, Repr

/-- A step with checks. -/
abbrev CheckedStep := EStateM Alarm Parser

/-- An outcome without alarm. -/
def quiet {α : Type} : EStateM.Result Failure Parser α → EStateM.Result Alarm Parser α
  | .ok a p => .ok a p
  | .error f p => .error (.failure f) p

/-- A step that has nothing to check. -/
def unchecked {α : Type} (step : Step α) : CheckedStep α := fun p => quiet (step p)

/-- Consumes the token ahead. There has to be one. -/
def advance : CheckedStep Token := do
  match ← unchecked peek with
  | none => throw .nothingAhead
  | some t =>
    unchecked (consume t)
    return t

/-- Makes a literal of the token ahead. It has to carry an integer. -/
def literal : CheckedStep Expr := do
  match (← advance).lexeme.value with
  | .integer n => return .constant n
  | _ => throw .noInteger

/-- An operand: a number. -/
def primaryChecked : CheckedStep Expr := do
  match ← unchecked peek with
  | none => throw (.failure (.error (.unexpectedEnd (← get).lastEnd)))
  | some t =>
    if t.lexeme.kind = .number then literal
    else throw (.failure (.error (.notAnExpression t)))

/-- The operator ahead, if there is one. -/
def operator? : Step (Option Operator) := do
  return (← peek).bind fun t => Operator.ofKind? t.lexeme.kind

/-- The operator ahead that binds at least as tight as `bar`, with the operand behind it. -/
def operationChecked? (bar : Int) : CheckedStep (Option (Operator × Expr)) := do
  match ← unchecked operator? with
  | none => return none
  | some op =>
    if op.precedence < bar then return none
    let _ ← advance
    return some (op, ← primaryChecked)

/-- Folds the operators ahead that bind at least as tight as `bar` into a left side. -/
def climbChecked (left : Expr) (bar : Int) : CheckedStep Expr := fun p =>
  match operationChecked? bar p with
  | .error a p1 => .error a p1
  | .ok none p1 => .ok left p1
  | .ok (some (op, operand)) p1 =>
    match unchecked operator? p1 with
    | .error a p2 => .error a p2
    | .ok next p2 =>
      if _ : p2.size < p.size then
        let right : EStateM.Result Alarm Parser Expr :=
          if next.any fun o => op.precedence < o.precedence then
            climbChecked operand (op.precedence + 1) p2
          else .ok operand p2
        match right with
        | .error a p3 => .error a p3
        | .ok right p3 =>
          if _ : p3.size < p.size then climbChecked (.binary op left right) bar p3
          else .error .noProgress p3
      else .error .noProgress p2
termination_by p => p.size

/-- An operand with all operators behind it. -/
def expressionChecked : CheckedStep Expr := do climbChecked (← primaryChecked) 0

end Arith.Parser
