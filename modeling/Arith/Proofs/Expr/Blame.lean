import Arith.Proofs.Expr.Verdict

/-!
# What a parser fails at

A parser that fails has passed some tokens, and fails at what it then faces: a token that it cannot
use, a token error that it has held, or the end of the stream (`Blames`). It may also fail when it
consumes a token, since the next pull is made at once. No assumption is made about the stream behind
that place, so that the pulls that were never made play no part (`blames_of_whole`).
-/

namespace Arith.Parser

/-- How a parser fails that has passed some tokens and faces a stream. -/
inductive Blames (passed : List Token) : List Pull → Failure → Prop where
  | notAnExpression (t : Token) (stream : List Pull) :
      Blames passed (.token t :: stream) (.error (.notAnExpression t))
  | leftOver (t : Token) (stream : List Pull) :
      Blames passed (.token t :: stream) (.error (.leftOver t))
  | held (e : TokenError) (stream : List Pull) :
      Blames passed (.error e :: stream) (.error (.token e))
  | ended {stream : List Pull} (h : stream.head? = none ∨ stream.head? = some .finished) :
      Blames passed stream (.error (.unexpectedEnd (endOf passed)))
  | fault (t : Token) (f : LexFault) (stream : List Pull) :
      Blames passed (.token t :: .fault f :: stream) (.fault f)

/-- A failure at a place of a stream, with the tokens in front of it. -/
def BlamesIn (passed : List Token) (stream : List Pull) (f : Failure) : Prop :=
  ∃ (tokens : List Token) (rest : List Pull), stream = tokens.map .token ++ rest ∧
    Blames (passed ++ tokens) rest f

variable {passed : List Token} {stream rest : List Pull} {f : Failure} {p : Parser}

theorem Blames.here (h : Blames passed stream f) : BlamesIn passed stream f :=
  ⟨[], stream, rfl, by rwa [List.append_nil]⟩

theorem BlamesIn.behind (head : List Token) (h : BlamesIn (passed ++ head) stream f) :
    BlamesIn passed (head.map .token ++ stream) f := by
  obtain ⟨tokens, rest, rfl, hblames⟩ := h
  refine ⟨head ++ tokens, rest, by simp, ?_⟩
  rwa [← List.append_assoc]

/-- A token cannot be consumed if the pull behind it fails. -/
theorem blames_of_consume {t : Token}
    (h : consume t (facing passed (.token t :: stream)) = .error f p) :
    Blames passed (.token t :: stream) f := by
  cases stream with
  | nil => cases h
  | cons first rest =>
    cases first with
    | fault g =>
      cases h
      exact Blames.fault t g rest
    | _ => cases h

theorem blames_of_primary (hstream : Pullable stream)
    (h : primary (facing passed stream) = .error f p) : Blames passed stream f := by
  rw [primary_eq] at h
  cases stream with
  | nil =>
    cases h
    exact Blames.ended (Or.inl rfl)
  | cons first rest =>
    cases first with
    | finished =>
      cases h
      exact Blames.ended (Or.inr rfl)
    | error e =>
      cases h
      exact Blames.held e rest
    | fault g => exact absurd hstream id
    | token t =>
      rw [facing_token] at h
      cases ht : t.lexeme with
      | number n =>
        simp only [ht] at h
        rw [← facing_token] at h
        cases hc : consume t (facing passed (.token t :: rest)) with
        | error g p1 =>
          rw [hc] at h
          cases h
          exact blames_of_consume hc
        | ok u p1 =>
          rw [hc] at h
          cases h
      | _ =>
        simp only [ht] at h
        cases h
        exact Blames.notAnExpression t rest

/-- Reading an operation fails at an error that is held, at the operator or at the operand. -/
theorem blames_of_operation? {bar : Int} (h : operation? bar (facing passed stream) = .error f p) :
    BlamesIn passed stream f := by
  rw [operation?_eq] at h
  cases stream with
  | nil => cases h
  | cons first rest =>
    cases first with
    | finished => cases h
    | fault g => cases h
    | error e =>
      cases h
      exact (Blames.held e rest).here
    | token t =>
      rw [facing_token] at h
      cases ho : Operator.ofKind? t.lexeme.kind with
      | none =>
        simp only [ho] at h
        cases h
      | some op =>
        simp only [ho] at h
        rw [← facing_token] at h
        split at h
        · cases h
        · cases hc : consume t (facing passed (.token t :: rest)) with
          | error g p1 =>
            rw [hc] at h
            cases h
            exact (blames_of_consume hc).here
          | ok u p1 =>
            have hrest : Pullable rest := pullable_of_consume hc
            rw [consume_facing passed t hrest] at h
            dsimp only at h
            cases hp : primary (facing (passed ++ [t]) rest) with
            | error g p2 =>
              rw [hp] at h
              cases h
              exact (blames_of_primary hrest hp).here.behind [t]
            | ok operand p2 =>
              rw [hp] at h
              cases h

/-- An expression fails at its first operand, or behind the chain of operations that was read. -/
theorem blames_of_expression (hstream : Pullable stream)
    (h : expression (facing [] stream) = .error f p) : BlamesIn [] stream f := by
  rw [expression_eq] at h
  cases hprimary : primary (facing [] stream) with
  | error g p1 =>
    rw [hprimary] at h
    cases h
    exact (blames_of_primary hstream hprimary).here
  | ok operand p1 =>
    rw [hprimary] at h
    obtain ⟨t, n, behind, rfl, -, rfl, hbehind, rfl⟩ := eq_of_primary_ok hprimary
    obtain ⟨head, ops, rest, rfl, -, -, -, hends⟩ := climb_split (.constant n) 0 [t] hbehind
    rw [List.nil_append] at h
    dsimp only at h
    rcases hends with ⟨e, hclimb, -⟩ | ⟨g, p', bar', hclimb, -, hstop⟩
    · rw [hclimb] at h
      cases h
    · rw [hclimb] at h
      cases h
      exact (blames_of_operation? hstop).behind (t :: head)

/-- **A text that is no expression fails at one place of its stream.** -/
theorem blames_of_whole (hstream : Pullable stream)
    (h : whole (facing [] stream) = .error f p) : BlamesIn [] stream f := by
  rw [whole_eq] at h
  cases hexpression : expression (facing [] stream) with
  | error g p1 =>
    rw [hexpression] at h
    cases h
    exact blames_of_expression hstream hexpression
  | ok e p1 =>
    rw [hexpression] at h
    obtain ⟨tokens, rest, rfl, -, -, -, rfl⟩ := eq_of_expression_ok hexpression
    -- the expression is complete, so that it fails at what is left
    have hrest : BlamesIn tokens rest f := by
      cases rest with
      | nil => cases h
      | cons first rest =>
        cases first with
        | finished => cases h
        | fault g => cases h
        | error e' =>
          cases h
          exact (Blames.held e' rest).here
        | token t =>
          cases h
          exact (Blames.leftOver t rest).here
    rw [← List.nil_append tokens] at hrest
    exact hrest.behind tokens

end Arith.Parser
