import Arith.Proofs.Expr.Verdict
import Arith.Proofs.Token.Stream
import Mathlib

/-!
# What parsing a source text brings

Of all that is wrong with a source text one error is reported (`parse_verdict`): the first token
that stands at a wrong place, then the token error that ends the stream, then an operand that is
missing at the end. In a text without overlong runs of digits nothing else can go wrong.
-/

namespace Arith

open Arith.Parser
open Lexer (DigitRunsWithin Tokenless digitRunsWithin_of_length exists_tokens lastPull
  tokenless_lastPull tokens_unique)

namespace Expr

/-- A source text is parsed as the stream of its tokens is. -/
theorem parse_eq {source : Bytes} (h : Pullable (Lexer.ofBytes source).pulls) :
    parse source = match whole (facing [] (Lexer.ofBytes source).pulls) with
      | .ok e _ => .ok e
      | .error f _ => .error f := by
  have hstart : Parser.start (Lexer.ofBytes source).pulls
      = .ok (facing [] (Lexer.ofBytes source).pulls) := by
    generalize (Lexer.ofBytes source).pulls = stream at *
    cases stream with
    | nil => rfl
    | cons first rest =>
      cases first with
      | fault f => exact absurd h id
      | _ => rfl
  unfold parse
  split
  next f hf =>
    rw [hstart] at hf
    cases hf
  next p hp =>
    rw [hstart] at hp
    cases hp
    rfl

/-- A stream whose tokens read as a well-grouped tree is parsed to that tree. -/
theorem parse_of_pulls {source : Bytes} {e : Expr} {tokens : List Token}
    (hpulls : (Lexer.ofBytes source).pulls = tokens.map .token ++ [.finished])
    (htokens : tokens.map Token.lexeme = e.inorder) (hgrouped : e.WellGrouped) :
    parse source = .ok e := by
  have hstream : Pullable [Pull.finished] := trivial
  have hwhole : whole (facing [] (tokens.map .token ++ [.finished]))
      = .ok e (facing tokens [.finished]) := by
    rw [whole_eq, expression_of_inorder htokens hgrouped hstream rfl]
    rfl
  rw [parse_eq (by rw [hpulls]; exact pullable_tokens tokens hstream), hpulls, hwhole]

/-- **A text that is parsed is the tokens of a well-grouped tree**, whose numbers fit in 64 bits. -/
theorem eq_of_parse_ok {source : Bytes} {e : Expr} (h : parse source = .ok e) :
    ∃ tokens : List Token, (Lexer.ofBytes source).pulls = tokens.map .token ++ [.finished] ∧
      tokens.map Token.lexeme = e.inorder ∧ e.WellGrouped ∧
      ∀ t ∈ tokens, ∀ n, t.lexeme = .number n → Lexer.Fits n := by
  have hpullable : Pullable (Lexer.ofBytes source).pulls := by
    unfold parse at h
    generalize (Lexer.ofBytes source).pulls = stream at h ⊢
    cases stream with
    | nil => trivial
    | cons first rest =>
      cases first with
      | fault f => cases h
      | _ => trivial
  obtain ⟨tokens, ending, hpulls, hending, hfits⟩ :=
    Lexer.pulls_stands (Lexer.stands_ofBytes source)
  rw [parse_eq hpullable] at h
  cases hwhole : whole (facing [] (Lexer.ofBytes source).pulls) with
  | error f p =>
    rw [hwhole] at h
    cases h
  | ok e' p =>
    rw [hwhole] at h
    cases h
    obtain ⟨tokens', rest, hstream, htokens, hgrouped, hrest, hlookahead⟩ := eq_of_whole_ok hwhole
    -- the parser and the lexer split the stream at the same place
    have hbare : Tokenless rest := by
      rintro t ht
      cases rest with
      | nil => cases ht
      | cons first rest =>
        cases ht
        cases hlookahead
    obtain ⟨rfl, rfl⟩ := tokens_unique (hpulls.symm.trans hstream) hending.tokenless hbare
    cases hending with
    | finished => exact ⟨tokens, hpulls, htokens, hgrouped, hfits⟩
    | error e => cases hlookahead
    | overlong => exact absurd hrest id

/-- A token at a wrong place is reported, whatever follows it. -/
theorem whole_of_misplaced {before : List Token} {t : Token} {stream : List Pull}
    (hbefore : Placed 0 before) (ht : Misplaced before.length t) :
    ∃ p, whole (facing [] (before.map .token ++ .token t :: stream))
      = .error (.error (if before.length % 2 = 0 then .notAnExpression t else .leftOver t)) p := by
  have hstream : Pullable (.token t :: stream) := trivial
  rw [whole_eq]
  by_cases heven : before.length % 2 = 0
  · have hnumber : NoNumber (.token t :: stream) := by
      intro u rest heq
      cases heq
      rwa [Misplaced, if_pos heven] at ht
    rw [if_pos heven, expression_of_even hbefore heven hstream hnumber]
    exact ⟨_, rfl⟩
  · have hahead : operatorAhead? (.token t :: stream) = none := by
      rwa [Misplaced, if_neg heven] at ht
    obtain ⟨e, -, -, hexpression⟩ :=
      expression_of_odd hbefore (by omega) hstream hahead
    rw [if_neg heven, hexpression]
    exact ⟨_, rfl⟩

/-- A stream that ends holds no number and no operator any more. -/
theorem lastPull_bare (error? : Option TokenError) :
    Faultless [lastPull error?] ∧ NoNumber [lastPull error?] ∧
      operatorAhead? [lastPull error?] = none := by
  cases error? with
  | none =>
    refine ⟨?_, ?_, rfl⟩
    · intro f hf
      cases List.mem_singleton.1 hf
    · intro t rest heq
      cases heq
  | some e =>
    refine ⟨?_, ?_, rfl⟩
    · intro f hf
      cases List.mem_singleton.1 hf
    · intro t rest heq
      cases heq

/-- Behind tokens at right places, the token error that ends the stream is reported. -/
theorem whole_of_error {tokens : List Token} (hplaced : Placed 0 tokens) (e : TokenError) :
    ∃ p, whole (facing [] (tokens.map .token ++ [lastPull (some e)]))
      = .error (.error (.token e)) p := by
  obtain ⟨hfaultless, hnumber, hahead⟩ := lastPull_bare (some e)
  rw [whole_eq]
  by_cases heven : tokens.length % 2 = 0
  · rw [expression_of_even hplaced heven hfaultless.pullable hnumber]
    exact ⟨_, rfl⟩
  · obtain ⟨tree, -, -, hexpression⟩ :=
      expression_of_odd hplaced (by omega) hfaultless.pullable hahead
    rw [hexpression]
    exact ⟨_, rfl⟩

/-- An even number of tokens at right places, and no more, lacks an operand. -/
theorem whole_of_even {tokens : List Token} (hplaced : Placed 0 tokens)
    (heven : tokens.length % 2 = 0) :
    ∃ p, whole (facing [] (tokens.map .token ++ [lastPull none]))
      = .error (.error (.unexpectedEnd (endOf tokens))) p := by
  obtain ⟨hfaultless, hnumber, -⟩ := lastPull_bare none
  rw [whole_eq, expression_of_even hplaced heven hfaultless.pullable hnumber]
  exact ⟨_, rfl⟩

/-- An odd number of tokens at right places, and no more, is an expression. -/
theorem whole_of_odd {tokens : List Token} (hplaced : Placed 0 tokens)
    (hodd : tokens.length % 2 = 1) :
    ∃ (e : Expr) (p : Parser), e.inorder = tokens.map Token.lexeme ∧ e.WellGrouped ∧
      whole (facing [] (tokens.map .token ++ [lastPull none])) = .ok e p := by
  obtain ⟨hfaultless, -, hahead⟩ := lastPull_bare none
  obtain ⟨e, hinorder, hgrouped, hexpression⟩ :=
    expression_of_odd hplaced hodd hfaultless.pullable hahead
  refine ⟨e, facing tokens [lastPull none], hinorder, hgrouped, ?_⟩
  rw [whole_eq, hexpression]
  rfl

/--
**One error is reported, and it is decided by the tokens and by how their stream ends.** The first
token at a wrong place comes first: an operand was expected at an even place, and nothing more at an
odd one. Then comes the token error that ends the stream, and then the operand that is missing at
the end of the text. Otherwise the text is an expression.
-/
theorem parse_verdict {source : Bytes} (h : DigitRunsWithin Numeral.digitLimit source) :
    ∃ (tokens : List Token) (error? : Option TokenError),
      (Lexer.ofBytes source).pulls = tokens.map .token ++ [lastPull error?] ∧
      match firstMisplaced? 0 tokens, error? with
      | some (t, j), _ => ∃ err : ParseError, parse source = .error (.error err) ∧
          err.kind = .unexpectedToken ∧ err.span = t.span ∧ err.cause? = none ∧
          err.message = if j % 2 = 0 then s!"expected an expression, found {t.lexeme.describe}"
            else s!"unexpected {t.lexeme.describe} after expression"
      | none, some e => ∃ err : ParseError, parse source = .error (.error err) ∧
          err.kind = .parse ∧ err.span = e.span ∧ err.cause? = some e ∧ err.message = e.message
      | none, none =>
        if tokens.length % 2 = 0 then
          ∃ err : ParseError, parse source = .error (.error err) ∧
            err.kind = .unexpectedEnd ∧ err.span = .point (endOf tokens) ∧ err.cause? = none
        else ∃ e : Expr, parse source = .ok e ∧ e.inorder = tokens.map Token.lexeme ∧
          e.WellGrouped := by
  obtain ⟨tokens, error?, hpulls⟩ := exists_tokens h
  refine ⟨tokens, error?, hpulls, ?_⟩
  obtain ⟨hending, -, -⟩ := lastPull_bare error?
  have hfaultless : Faultless (tokens.map .token ++ [lastPull error?]) :=
    faultless_tokens tokens hending
  have hparse := parse_eq (hpulls ▸ hfaultless.pullable)
  rw [hpulls] at hparse
  cases hfirst : firstMisplaced? 0 tokens with
  | some found =>
    obtain ⟨t, j⟩ := found
    obtain ⟨before, behind, rfl, hj, hbefore, ht⟩ := firstMisplaced?_eq_some hfirst
    rw [Nat.zero_add] at hj
    subst hj
    rw [List.map_append, List.map_cons, List.append_assoc, List.cons_append] at hparse
    obtain ⟨p, hwhole⟩ := whole_of_misplaced hbefore ht
    rw [hwhole] at hparse
    refine ⟨_, hparse, ?_⟩
    by_cases heven : before.length % 2 = 0
    · rw [if_pos heven, if_pos heven]
      exact ⟨rfl, rfl, rfl, rfl⟩
    · rw [if_neg heven, if_neg heven]
      exact ⟨rfl, rfl, rfl, rfl⟩
  | none =>
    have hplaced := firstMisplaced?_eq_none hfirst
    cases error? with
    | some e =>
      obtain ⟨p, hwhole⟩ := whole_of_error hplaced e
      rw [hwhole] at hparse
      exact ⟨_, hparse, rfl, rfl, rfl, rfl⟩
    | none =>
      dsimp only
      by_cases heven : tokens.length % 2 = 0
      · obtain ⟨p, hwhole⟩ := whole_of_even hplaced heven
        rw [hwhole] at hparse
        rw [if_pos heven]
        exact ⟨_, hparse, rfl, rfl, rfl⟩
      · obtain ⟨e, p, hinorder, hgrouped, hwhole⟩ := whole_of_odd hplaced (by omega)
        rw [hwhole] at hparse
        rw [if_neg heven]
        exact ⟨e, hparse, hinorder, hgrouped⟩

/-- In `2 3`, a space and a byte that begins no character, the second number is reported. -/
theorem parse_verdict_leftOver :
    let source : Bytes := [0x32, 0x20, 0x33, 0x20, 0xFF]
    DigitRunsWithin Numeral.digitLimit source ∧
      ∃ err : ParseError, parse source = .error (.error err) ∧ err.kind = .unexpectedToken ∧
        err.span = .ofLength 2 1 ∧ err.cause? = none ∧
        err.message = "unexpected number 3 after expression" := by
  intro source
  have hwithin : DigitRunsWithin Numeral.digitLimit source :=
    digitRunsWithin_of_length (by decide)
  obtain ⟨tokens, error?, hpulls, hverdict⟩ := parse_verdict hwithin
  have hstream : (Lexer.ofBytes source).pulls
      = [⟨.ofLength 0 1, .number 2⟩, ⟨.ofLength 2 1, .number 3⟩].map .token
        ++ [lastPull (some (.text (.ofMalformed 4 (.badLead 0xFF))))] := by
    cbv
  obtain ⟨rfl, hlast⟩ := tokens_unique (hpulls.symm.trans hstream) (tokenless_lastPull _)
    (tokenless_lastPull _)
  obtain ⟨err, hparse, hkind, hspan, hcause, hmessage⟩ := hverdict
  refine ⟨hwithin, err, hparse, hkind, hspan, hcause, ?_⟩
  rw [hmessage]
  cbv

end Expr

end Arith
