import Arith.Proofs.Expr.Blame
import Arith.Proofs.Expr.Parse

/-!
# Faults that reach a parser

A pull that fails without a token error ends parsing at once, if the parser makes it. The parser
pulls the token behind every token that it consumes, so that it meets the fault if and only if all
tokens in front of the fault stand at right places (`parse_fault_iff`). A token at a wrong place is
never consumed, and is reported instead.
-/

namespace Arith

open Arith.Parser
open Lexer (DigitRunsWithin exists_tokens)

namespace Parser

variable (passed : List Token) {t : Token} (f : LexFault) (more : List Pull)

/-- A token in front of a fault is not consumed. -/
theorem consume_of_fault (t : Token) :
    ∃ p, consume t (facing passed (.token t :: .fault f :: more)) = .error (.fault f) p :=
  ⟨_, rfl⟩

/-- An operand in front of a fault is not read. -/
theorem primary_of_fault {n : Int} (ht : t.lexeme = .number n) :
    ∃ p, primary (facing passed (.token t :: .fault f :: more)) = .error (.fault f) p := by
  obtain ⟨p, hconsume⟩ := consume_of_fault passed f more t
  rw [facing_token] at hconsume ⊢
  rw [primary_eq]
  simp only [ht, hconsume]
  exact ⟨p, rfl⟩

/-- An operator in front of a fault is not read. -/
theorem operation?_of_fault {op : Operator} (ht : t.lexeme = .symbol op.symbol) :
    ∃ p, ∀ bar : Int, bar ≤ op.precedence →
      operation? bar (facing passed (.token t :: .fault f :: more)) = .error (.fault f) p := by
  have hop : Operator.ofKind? t.lexeme.kind = some op := by
    rw [ht]
    exact Operator.ofKind?_symbol op
  obtain ⟨p, hconsume⟩ := consume_of_fault passed f more t
  refine ⟨p, fun bar hbar => ?_⟩
  rw [operation?_eq]
  rw [facing_token] at hconsume ⊢
  simp only [hop, if_neg (Int.not_lt.mpr hbar), hconsume]

/-- An operator and an operand in front of a fault are not read. -/
theorem operation?_of_operand_fault {u : Token} {op : Operator} {n : Int}
    (ht : t.lexeme = .symbol op.symbol) (hu : u.lexeme = .number n) :
    ∃ p, ∀ bar : Int, bar ≤ op.precedence →
      operation? bar (facing passed (.token t :: .token u :: .fault f :: more))
        = .error (.fault f) p := by
  have hop : Operator.ofKind? t.lexeme.kind = some op := by
    rw [ht]
    exact Operator.ofKind?_symbol op
  have hconsume : consume t (facing passed (.token t :: .token u :: .fault f :: more))
      = .ok () (facing (passed ++ [t]) (.token u :: .fault f :: more)) :=
    consume_facing passed t trivial
  obtain ⟨p, hprimary⟩ := primary_of_fault (passed ++ [t]) f more hu
  refine ⟨p, fun bar hbar => ?_⟩
  rw [operation?_eq]
  rw [facing_token] at hconsume ⊢
  simp only [hop, if_neg (Int.not_lt.mpr hbar), hconsume, hprimary]

/-- **A fault behind tokens at right places reaches the parser.** -/
theorem expression_of_fault {tokens : List Token} (hplaced : Placed 0 tokens)
    (hne : tokens ≠ []) :
    ∃ p, expression (facing [] (tokens.map .token ++ .fault f :: more)) = .error (.fault f) p := by
  obtain ⟨t, tokens, rfl⟩ := List.exists_cons_of_ne_nil hne
  obtain ⟨n, ht⟩ := exists_number_of_not_misplaced rfl hplaced.head
  obtain ⟨head, ops, hhead, hbehind⟩ := exists_chain_of_placed rfl hplaced.tail
  rcases hbehind with rfl | ⟨o, op, ho, rfl⟩
  · -- the last token is an operand, the first one or that of an operation
    rcases List.eq_nil_or_concat ops with rfl | ⟨ops, ⟨op, n'⟩, rfl⟩
    · obtain rfl : tokens = [] := List.map_eq_nil_iff.mp hhead
      obtain ⟨p, hprimary⟩ := primary_of_fault [] f more ht
      rw [expression_eq]
      exact ⟨p, by simp only [List.map_cons, List.map_nil, List.cons_append, List.nil_append,
        hprimary]⟩
    · rw [List.concat_eq_append, Expr.written_append] at hhead
      obtain ⟨front, last, rfl, hfront, hlast⟩ := List.map_eq_append_iff.mp hhead
      obtain ⟨o, u, rest, rfl, ho, hu, hrest⟩ := Expr.exists_eq_cons_of_written hlast
      obtain rfl : rest = [] := List.map_eq_nil_iff.mp hrest
      obtain ⟨p, hfail⟩ := operation?_of_operand_fault (t :: front) f more ho hu
      exact ⟨p, by simpa using expression_of_failing ht hfront ho hfail⟩
  · obtain ⟨p, hfail⟩ := operation?_of_fault (t :: head) f more ho
    exact ⟨p, by simpa using expression_of_failing ht hhead ho hfail⟩

end Parser

namespace Expr

variable {source : Bytes} {f : LexFault}

/-- A text fails at once if its first pull does. -/
theorem parse_of_first_fault {more : List Pull}
    (h : (Lexer.ofBytes source).pulls = .fault f :: more) :
    parse source = .error (.fault f) := by
  unfold parse
  rw [h]
  rfl

/-- **Parsing meets a fault if and only if all tokens in front of it stand at right places.** -/
theorem parse_fault_iff :
    parse source = .error (.fault f) ↔ ∃ (tokens : List Token) (more : List Pull),
      (Lexer.ofBytes source).pulls = tokens.map .token ++ .fault f :: more ∧ Placed 0 tokens := by
  constructor
  · intro h
    by_cases hpullable : Pullable (Lexer.ofBytes source).pulls
    · rw [parse_eq hpullable] at h
      cases hwhole : whole (facing [] (Lexer.ofBytes source).pulls) with
      | ok e p =>
        rw [hwhole] at h
        cases h
      | error failure p =>
        rw [hwhole] at h
        cases h
        obtain ⟨passed, rest, hstream, hblames⟩ := blames_of_whole hpullable hwhole
        cases hblames with
        | fault t _ more =>
          have hpulls : (Lexer.ofBytes source).pulls
              = (passed ++ [t]).map .token ++ .fault f :: more := by
            simpa using hstream
          refine ⟨passed ++ [t], more, hpulls, ?_⟩
          -- a token at a wrong place would have been reported
          cases hfirst : firstMisplaced? 0 (passed ++ [t]) with
          | none => exact firstMisplaced?_eq_none hfirst
          | some found =>
            obtain ⟨u, j⟩ := found
            obtain ⟨before, behind, hsplit, hj, hbefore, hu⟩ := firstMisplaced?_eq_some hfirst
            obtain rfl : before.length = j := by omega
            obtain ⟨p', hreported⟩ := whole_of_misplaced hbefore hu
            rw [hpulls, hsplit, List.map_append, List.map_cons, List.append_assoc,
              List.cons_append, hreported] at hwhole
            cases hwhole
    · cases hpulls : (Lexer.ofBytes source).pulls with
      | nil =>
        rw [hpulls] at hpullable
        exact absurd trivial hpullable
      | cons first more =>
        cases first with
        | fault g =>
          rw [parse_of_first_fault hpulls] at h
          cases h
          exact ⟨[], more, rfl, placed_nil 0⟩
        | _ =>
          rw [hpulls] at hpullable
          exact absurd trivial hpullable
  · rintro ⟨tokens, more, hpulls, hplaced⟩
    cases tokens with
    | nil => exact parse_of_first_fault hpulls
    | cons t tokens =>
      obtain ⟨p, hexpression⟩ := expression_of_fault f more hplaced (List.cons_ne_nil t tokens)
      have hwhole : whole (facing [] (Lexer.ofBytes source).pulls) = .error (.fault f) p := by
        rw [hpulls, whole_eq, hexpression]
      rw [parse_eq (by rw [hpulls]; trivial), hwhole]

/-- In a text without overlong runs of digits no pull fails without a token error. -/
theorem faultless_of_digitRunsWithin (h : DigitRunsWithin Numeral.digitLimit source) :
    Faultless (Lexer.ofBytes source).pulls := by
  obtain ⟨tokens, error?, hpulls⟩ := exists_tokens h
  rw [hpulls]
  exact faultless_tokens tokens (lastPull_bare error?).1

/-- A text without overlong runs of digits is an expression, or an error is reported. -/
theorem parse_of_digitRunsWithin (h : DigitRunsWithin Numeral.digitLimit source) :
    (∃ e, parse source = .ok e) ∨ ∃ err, parse source = .error (.error err) := by
  cases hparse : parse source with
  | ok e => exact Or.inl ⟨e, rfl⟩
  | error failure =>
    cases failure with
    | error err => exact Or.inr ⟨err, rfl⟩
    | fault f =>
      obtain ⟨tokens, more, hpulls, -⟩ := parse_fault_iff.1 hparse
      have hfaultless := faultless_of_digitRunsWithin h
      rw [hpulls] at hfaultless
      exact absurd (by simp) (hfaultless f)

end Expr

end Arith
