import Arith.Expr.Checked
import Arith.Proofs.Expr.Climbing

/-!
# Checks that never fail

No alarm is ever raised: from every parser, on every stream, the checked steps do what the others do
(`primaryChecked_eq`, `climbChecked_eq`). A call of climbing that the checked one leaves out would
return at once (`climb_of_noTighter`).
-/

namespace Arith.Parser

theorem advance_eq (p : Parser) :
    advance p = match p.lookahead with
      | .finished => .error .nothingAhead p
      | .held e => .error (.failure (.error (.token e))) p
      | .token t =>
        match consume t p with
        | .error f p1 => .error (.failure f) p1
        | .ok _ p1 => .ok t p1 := by
  change EStateM.bind (unchecked peek) _ p = _
  unfold EStateM.bind unchecked peek
  cases p.lookahead with
  | finished => rfl
  | held e => rfl
  | token t =>
    dsimp only [quiet]
    change EStateM.bind (unchecked (consume t)) _ p = _
    unfold EStateM.bind unchecked
    cases consume t p <;> rfl

/-- A literal is made only of a number. -/
theorem literal_eq {p : Parser} {t : Token} {n : Int} (h : p.lookahead = .token t)
    (ht : t.lexeme = .number n) :
    literal p = match consume t p with
      | .error f p1 => .error (.failure f) p1
      | .ok _ p1 => .ok (.constant n) p1 := by
  change EStateM.bind advance _ p = _
  unfold EStateM.bind
  rw [advance_eq, h]
  dsimp only
  cases consume t p with
  | error f p1 => rfl
  | ok u p1 =>
    dsimp only
    rw [ht]
    rfl

/-- **Reading an operand raises no alarm.** -/
theorem primaryChecked_eq (p : Parser) : primaryChecked p = quiet (primary p) := by
  change EStateM.bind (unchecked peek) _ p = _
  rw [primary_eq]
  unfold EStateM.bind unchecked peek
  cases hl : p.lookahead with
  | finished => rfl
  | held e => rfl
  | token t =>
    dsimp only [quiet]
    cases ht : t.lexeme with
    | number n =>
      change literal p = _
      rw [literal_eq hl ht]
      cases consume t p <;> rfl
    | _ => rfl

theorem operator?_eq (p : Parser) :
    operator? p = match p.lookahead with
      | .finished => .ok none p
      | .held e => .error (.error (.token e)) p
      | .token t => .ok (Operator.ofKind? t.lexeme.kind) p := by
  change EStateM.bind peek _ p = _
  unfold EStateM.bind peek
  cases p.lookahead <;> rfl

/-- **Reading an operation raises no alarm.** -/
theorem operationChecked?_eq (bar : Int) (p : Parser) :
    operationChecked? bar p = quiet (operation? bar p) := by
  change EStateM.bind (unchecked operator?) _ p = _
  rw [operation?_eq]
  unfold EStateM.bind unchecked
  rw [operator?_eq]
  cases hl : p.lookahead with
  | finished => rfl
  | held e => rfl
  | token t =>
    dsimp only [quiet]
    cases Operator.ofKind? t.lexeme.kind with
    | none => rfl
    | some op =>
      dsimp only
      by_cases hbar : (op.precedence : Int) < bar
      · rw [if_pos hbar, if_pos hbar]
        rfl
      · rw [if_neg hbar, if_neg hbar]
        change EStateM.bind advance _ p = _
        unfold EStateM.bind
        rw [advance_eq, hl]
        dsimp only
        cases consume t p with
        | error f p1 => rfl
        | ok u p1 =>
          dsimp only
          change EStateM.bind primaryChecked _ p1 = _
          unfold EStateM.bind
          rw [primaryChecked_eq]
          cases primary p1 <;> rfl

/-- Looking for an operator changes nothing. -/
theorem eq_of_operator? {p p' : Parser} {next : Option Operator}
    (h : operator? p = .ok next p') : p' = p := by
  rw [operator?_eq] at h
  split at h <;> cases h <;> rfl

/-- Climbing fails where no operator can be looked for. -/
theorem climb_of_operator?_error {p p' : Parser} {f : Failure} (h : operator? p = .error f p')
    (left : Expr) (bar : Int) : climb left bar p = .error f p' := by
  rw [operator?_eq] at h
  rw [climb_eq, operation?_eq]
  cases hl : p.lookahead with
  | held e =>
    rw [hl] at h
    cases h
    rfl
  | _ =>
    rw [hl] at h
    cases h

/-- Climbing returns at once where the operator ahead binds too loose. -/
theorem climb_of_operator?_ok {p p' : Parser} {next : Option Operator} {bar : Int}
    (h : operator? p = .ok next p') (hnext : ∀ o ∈ next, (o.precedence : Int) < bar)
    (left : Expr) : climb left bar p = .ok left p := by
  rw [operator?_eq] at h
  rw [climb_eq, operation?_eq]
  cases hl : p.lookahead with
  | finished => rfl
  | held e =>
    rw [hl] at h
    cases h
  | token t =>
    rw [hl] at h
    dsimp only at h ⊢
    cases ho : Operator.ofKind? t.lexeme.kind with
    | none => rfl
    | some o =>
      rw [ho] at h
      cases h
      dsimp only
      rw [if_pos (hnext o rfl)]

/-- A call of climbing that is left out would return at once. -/
theorem climb_of_noTighter {p p' : Parser} {next : Option Operator} {op : Operator}
    (h : operator? p = .ok next p')
    (hnext : ¬ next.any (fun o => op.precedence < o.precedence) = true) (operand : Expr) :
    climb operand (op.precedence + 1) p = .ok operand p := by
  refine climb_of_operator?_ok h ?_ operand
  rintro o rfl
  have : ¬ op.precedence < o.precedence := by simpa using hnext
  omega

/-- **Climbing raises no alarm.** -/
theorem climbChecked_eq (left : Expr) (bar : Int) (p : Parser) :
    climbChecked left bar p = quiet (climb left bar p) := by
  induction hn : p.size using Nat.strongRecOn generalizing left bar p with
  | ind n ih =>
    subst hn
    have hsize := size_operation? bar p
    rw [climbChecked, operationChecked?_eq, climb_eq]
    cases h : operation? bar p with
    | error f p1 => rfl
    | ok found p1 =>
      cases found with
      | none => rfl
      | some found =>
        obtain ⟨op, operand⟩ := found
        rw [h] at hsize
        dsimp only [quiet, unchecked]
        cases hnext : operator? p1 with
        | error f p2 => rw [climb_of_operator?_error hnext]
        | ok next p2 =>
          obtain rfl : p2 = p1 := eq_of_operator? hnext
          dsimp only
          have hright : (if next.any (fun o => op.precedence < o.precedence) then
                climbChecked operand (op.precedence + 1) p2 else .ok operand p2)
              = quiet (climb operand (op.precedence + 1) p2) := by
            split
            next => exact ih p2.size hsize _ _ _ rfl
            next hloose => rw [climb_of_noTighter hnext hloose]; rfl
          rw [dif_pos hsize, hright]
          -- the call leaves no more to consume than there was
          have hle : (after (climb operand (op.precedence + 1) p2)).size ≤ p2.size :=
            (climbBounded operand (op.precedence + 1) p2).2
          cases hr : climb operand (op.precedence + 1) p2 with
          | error f p3 => rfl
          | ok right p3 =>
            rw [hr] at hle
            have hlt : p3.size < p.size := Nat.lt_of_le_of_lt hle hsize
            dsimp only [quiet]
            rw [dif_pos hlt, ih p3.size hlt _ _ _ rfl]
            rfl

/-- **Reading an expression raises no alarm.** -/
theorem expressionChecked_eq (p : Parser) : expressionChecked p = quiet (expression p) := by
  change EStateM.bind primaryChecked _ p = _
  rw [expression_eq]
  unfold EStateM.bind
  rw [primaryChecked_eq]
  cases primary p with
  | error f p1 => rfl
  | ok operand p1 => exact climbChecked_eq operand 0 p1

end Arith.Parser
