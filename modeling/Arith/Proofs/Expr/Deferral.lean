import Arith.Proofs.Expr.Operations
import Arith.Proofs.Expr.Parse
import Arith.Proofs.Token.Failing

/-!
# Token errors that are held back

A parser that pulls a token error holds it until it is asked for the token in its place. Up to there
it answers as if the text ended behind the tokens (`trace_holding`): an operand in front of the
error is read, and only what looks behind the last token fails (`deferred`). From the pull of the
error on nothing changes any more, and whatever is asked is answered by the error
(`trace_of_held`).
-/

namespace Arith.Parser

open Lexer (DigitRunsWithin digitRunsWithin_of_length exhausted_of_pulls exists_tokens lastPull
  reached tokenless_lastPull tokens_unique)

/-! ## A token error behind the tokens -/

/-- The parser that meets a token error where another one meets the end of its tokens. -/
def holding (e : TokenError) (p : Parser) : Parser :=
  match p.lookahead with
  | .token _ => { p with stream := p.stream ++ [.error e] }
  | _ => { p with lookahead := .held e }

variable {e : TokenError} {passed tokens : List Token} {t : Token} {p : Parser}

theorem facing_error (e : TokenError) (passed tokens : List Token) :
    facing passed (tokens.map .token ++ [.error e]) = holding e (between passed tokens) := by
  cases tokens <;> rfl

/-- A token error is held just where no tokens are left. -/
theorem lookahead_holding (e : TokenError) (passed tokens : List Token) :
    (holding e (between passed tokens)).lookahead = tokens.head?.elim (.held e) .token := by
  cases tokens <;> rfl

/-- A parser in front of a token error holds no other one, and this one behind the last token. -/
theorem eq_of_lookahead_holding {held : TokenError}
    (h : (holding e (between passed tokens)).lookahead = .held held) : tokens = [] ∧ held = e := by
  rw [lookahead_holding] at h
  cases tokens with
  | nil => exact ⟨rfl, (Lookahead.held.inj h).symm⟩
  | cons t tokens => cases h

theorem pulled_holding (e : TokenError) (passed tokens : List Token) :
    (holding e (between passed tokens)).pulled = passed.length + 1 := by
  cases tokens <;> rfl

/-- What was not pulled yet stands behind what was. -/
theorem stream_holding (e : TokenError) (passed tokens : List Token) :
    (holding e (between passed tokens)).stream
      = ((passed ++ tokens).map Pull.token ++ [Pull.error e]).drop (passed.length + 1) := by
  rw [List.map_append, List.append_assoc, ← List.drop_drop,
    List.drop_left' (List.length_map ..)]
  cases tokens <;> rfl

theorem pullable_error (e : TokenError) (tokens : List Token) :
    Pullable (tokens.map .token ++ [.error e]) := pullable_tokens tokens trivial

theorem operatorAhead?_error (e : TokenError) (tokens : List Token) :
    operatorAhead? (tokens.map .token ++ [.error e]) = operatorAhead? (tokens.map .token) := by
  cases tokens <;> rfl

theorem noNumber_error (h : ∀ t ∈ tokens.head?, t.lexeme.kind ≠ .number) (e : TokenError) :
    NoNumber (tokens.map .token ++ [.error e]) := by
  intro t rest hstream
  cases tokens with
  | nil => cases hstream
  | cons u tokens =>
    cases hstream
    exact h t rfl

/-! ## One operation -/

/--
What is answered where a token error stands behind the tokens: what would be answered without it,
unless the operation has looked behind the last token. To read an operand, it need not be looked
behind it.
-/
def deferred (e : TokenError) :
    Operation → Except Failure Answer × Parser → Except Failure Answer × Parser
  | .primary, (.ok answer, p) => (.ok answer, holding e p)
  | _, (answer, p) =>
    (if p.lookahead = .finished then .error (.error (.token e)) else answer, holding e p)

theorem deferred_snd (e : TokenError) (op : Operation) (o : Except Failure Answer × Parser) :
    (deferred e op o).2 = holding e o.2 := by
  obtain ⟨answer, p⟩ := o
  cases op <;> cases answer <;> rfl

theorem primary_holding (e : TokenError) (passed tokens : List Token) :
    perform (holding e (between passed tokens)) .primary
      = deferred e .primary (perform (between passed tokens) .primary) := by
  rcases exists_number_or_missing tokens with ⟨t, n, rest, rfl, ht⟩ | hnone
  · rw [perform, perform, primary_between_number ht, ← facing_error, List.map_cons,
      List.cons_append, primary_facing_number ht (pullable_error e rest), facing_error]
    rfl
  · rw [perform, perform, primary_between_missing hnone, ← facing_error,
      primary_of_noNumber (noNumber_error hnone e)]
    cases tokens <;> rfl

/-- An operand is read directly in front of a token error, which is then held. -/
theorem primary_holding_last {n : Int}
    (hahead : (holding e (between passed tokens)).lookahead = .token t) (ht : t.lexeme = .number n)
    (hlast : (holding e (between passed tokens)).stream = [.error e]) :
    ∃ p', perform (holding e (between passed tokens)) .primary = (.ok (.tree (.constant n)), p') ∧
      p'.lookahead = .held e := by
  rw [lookahead_holding] at hahead
  cases tokens with
  | nil => cases hahead
  | cons u rest =>
    obtain rfl : u = t := Lookahead.token.inj hahead
    obtain rfl : rest = [] := by simpa [holding, between, Lookahead.ofTokens] using hlast
    refine ⟨holding e (between (passed ++ [u]) []), ?_, rfl⟩
    rw [primary_holding, perform, primary_between_number ht]
    rfl

/-- Behind the operators that it takes, climbing looks for one more. -/
theorem climb_holding (e : TokenError) (left : Expr) (bar : Int) (passed tokens : List Token) :
    perform (holding e (between passed tokens)) (.climb left bar)
      = deferred e (.climb left bar) (perform (between passed tokens) (.climb left bar)) := by
  obtain ⟨ops, chain, rest, h⟩ := exists_longestChain bar tokens
  rw [perform, perform, ← facing_error, h.tokens_eq, List.map_append, List.append_assoc]
  rcases loose_or_exists bar rest with hloose | ⟨t, behind, op, rfl, ht, hbar⟩
  · have hahead : ∀ op ∈ operatorAhead? (rest.map .token ++ [.error e]),
        (op.precedence : Int) < bar := by
      rw [operatorAhead?_error]
      exact hloose
    have hbetween := h.climb_eq_ok hloose left passed
    rw [h.tokens_eq] at hbetween
    rw [hbetween, climb_of_chain h.reads h.tight (pullable_error e rest) hahead 0, climb_eq]
    cases rest with
    | nil =>
      rw [operation?_of_held rfl]
      rfl
    | cons t rest =>
      rw [operation?_of_loose (fun e he => by cases he) hahead]
      rfl
  · have hbetween := h.climb_eq_error ht hbar left passed
    have hnumber := noNumber_error (h.no_operand ht hbar) e
    have hfail : ∀ bar' : Int, bar' ≤ op.precedence →
        operation? bar' (facing (passed ++ chain) (.token t :: (behind.map .token ++ [.error e])))
          = _ :=
      fun _ hbar' => operation?_of_noNumber hnumber (pullable_error e behind) ht hbar' _
    rw [h.tokens_eq] at hbetween
    rw [hbetween, List.map_cons, List.cons_append, climb_of_failing h.reads h.tight ht hbar hfail,
      facing_error]
    cases behind <;> rfl

/-- **One operation** in front of a token error fails by it only if it looks behind the tokens. -/
theorem perform_holding (e : TokenError) (passed tokens : List Token) (op : Operation) :
    perform (holding e (between passed tokens)) op
      = deferred e op (perform (between passed tokens) op) := by
  cases op with
  | primary => exact primary_holding e passed tokens
  | climb left bar => exact climb_holding e left bar passed tokens
  | atEnd => cases tokens <;> rfl
  | expectEnd => cases tokens <;> rfl
  | expression =>
    rcases exists_number_or_missing tokens with ⟨t, n, rest, rfl, ht⟩ | hnone
    · -- behind the first operand, an expression is climbed
      have hclimb := climb_holding e (.constant n) 0 (passed ++ [t]) rest
      rw [perform, perform] at hclimb
      rw [perform, perform]
      rw [expression_eq, expression_eq, primary_between_number ht, ← facing_error, List.map_cons,
        List.cons_append, primary_facing_number ht (pullable_error e rest), facing_error]
      exact hclimb
    · rw [perform, perform, expression_eq, expression_eq, primary_between_missing hnone,
        ← facing_error, primary_of_noNumber (noNumber_error hnone e)]
      cases tokens <;> rfl

/-- Whatever is asked of a parser that holds an error is answered by it, and changes nothing. -/
theorem perform_of_held (h : p.lookahead = .held e) (op : Operation) :
    perform p op = (.error (.error (.token e)), p) := by
  have hprimary : primary p = .error (.error (.token e)) p := by rw [primary_eq, h]
  cases op with
  | primary => rw [perform, hprimary]; rfl
  | expression => rw [perform, expression_eq, hprimary]; rfl
  | climb left bar => rw [perform, climb_eq, operation?_of_held h]; rfl
  | atEnd =>
    obtain ⟨stream, lookahead, lastEnd, pulled⟩ := p
    cases h
    rfl
  | expectEnd =>
    obtain ⟨stream, lookahead, lastEnd, pulled⟩ := p
    cases h
    rfl

/-! ## Runs of operations -/

/-- **A held error is for good.** -/
theorem trace_of_held (h : p.lookahead = .held e) (ops : List Operation) :
    trace perform p ops = List.replicate ops.length (.error (.error (.token e)), p) := by
  induction ops with
  | nil => rfl
  | cons op ops ih =>
    rw [trace, perform_of_held h, ih]
    rfl

/-- **A run of operations in front of a token error** is the run on the tokens alone, but for the
answers that have looked behind the last token. -/
theorem trace_holding (e : TokenError) (passed tokens : List Token) (ops : List Operation) :
    trace perform (holding e (between passed tokens)) ops
      = List.zipWith (deferred e) ops (trace perform (between passed tokens) ops) := by
  induction ops generalizing passed tokens with
  | nil => rfl
  | cons op ops ih =>
    obtain ⟨answer, read, rest, -, hperform, -⟩ := perform_between passed tokens op
    rw [trace, trace, List.zipWith_cons_cons, perform_holding, deferred_snd, hperform, ih]

/-- A parser in front of a token error stands at a place of the tokens, whatever was asked of it. -/
theorem exists_holding_of_mem (ops : List Operation)
    (h : p ∈ holding e (between passed tokens) ::
      (trace perform (holding e (between passed tokens)) ops).map Prod.snd) :
    ∃ passed' rest, passed' ++ rest = passed ++ tokens ∧ p = holding e (between passed' rest) := by
  induction ops generalizing passed tokens with
  | nil => exact ⟨passed, tokens, rfl, List.mem_singleton.1 h⟩
  | cons op ops ih =>
    rcases List.mem_cons.1 h with rfl | h
    · exact ⟨passed, tokens, rfl, rfl⟩
    · obtain ⟨answer, read, rest, rfl, hperform, -⟩ := perform_between passed tokens op
      rw [trace, List.map_cons, perform_holding, deferred_snd, hperform] at h
      obtain ⟨passed', rest', heq, rfl⟩ := ih h
      exact ⟨passed', rest', by rw [heq, List.append_assoc], rfl⟩

/-- The parser on a text whose stream ends with a token error. -/
theorem start_error (e : TokenError) (tokens : List Token) :
    start (tokens.map .token ++ [.error e]) = .ok (holding e (ofTokens tokens)) := by
  cases tokens <;> rfl

/--
**A token error is held until the token in its place is needed, and then it stays.** In front of it
every operation answers as if the text ended behind the tokens, unless it looks behind the last one;
so an operand that is the last token is read. Once the error was pulled, every operation fails with
a parse error about it, and neither the parser nor the stream of tokens, which is exhausted, changes
any more.
-/
theorem trace_deferred {source : Bytes} (h : DigitRunsWithin Numeral.digitLimit source) :
    ∃ (tokens : List Token) (error? : Option TokenError),
      (Lexer.ofBytes source).pulls = tokens.map .token ++ [lastPull error?] ∧
      ∀ e ∈ error?, let p := holding e (ofTokens tokens)
        start (Lexer.ofBytes source).pulls = .ok p ∧
        ∀ ops, let alone := trace perform (ofTokens tokens) ops
          InOrder [] tokens ops alone ∧
          trace perform p ops = List.zipWith (deferred e) ops alone ∧
          ∀ p' ∈ p :: (trace perform p ops).map Prod.snd,
            p'.stream = (Lexer.ofBytes source).pulls.drop p'.pulled ∧
            (∀ t n, p'.lookahead = .token t → t.lexeme = .number n → p'.stream = [.error e] →
              ∃ p'', perform p' .primary = (.ok (.tree (.constant n)), p'') ∧
                p''.lookahead = .held e) ∧
            ∀ held, p'.lookahead = .held held → held = e ∧ p'.stream = [] ∧
              (reached source p'.pulled).exhausted = true ∧
              ∃ err : ParseError, err.kind = .parse ∧ err.message = e.message ∧
                err.span = e.span ∧ err.cause? = some e ∧
                ∀ later, trace perform p' later
                  = List.replicate later.length (.error (.error err), p') := by
  obtain ⟨tokens, error?, hpulls⟩ := exists_tokens h
  refine ⟨tokens, error?, hpulls, ?_⟩
  rintro e rfl p
  change (Lexer.ofBytes source).pulls = tokens.map .token ++ [.error e] at hpulls
  have hbetween : ofTokens tokens = between [] tokens := ofTokens_eq_between tokens
  have hp : p = holding e (between [] tokens) := congrArg (holding e) hbetween
  refine ⟨by rw [hpulls, start_error], fun ops => ⟨?_, ?_, ?_⟩⟩
  · rw [hbetween]
    exact inOrder_trace [] tokens ops
  · rw [hp, hbetween, trace_holding]
  intro p' hp'
  rw [hp] at hp'
  obtain ⟨passed, rest, htokens, rfl⟩ := exists_holding_of_mem ops hp'
  rw [List.nil_append] at htokens
  refine ⟨?_, fun t n => primary_holding_last, ?_⟩
  · rw [hpulls, pulled_holding, stream_holding, htokens]
  · intro held hheld
    obtain ⟨rfl, rfl⟩ := eq_of_lookahead_holding hheld
    rw [List.append_nil] at htokens
    refine ⟨rfl, rfl, ?_, .token held, rfl, rfl, rfl, rfl, fun later => trace_of_held rfl later⟩
    have hexhausted := exhausted_of_pulls hpulls
    rwa [List.length_map, ← htokens] at hexhausted

/-- In front of a byte that begins no character, `1` is read, and then nothing more. -/
theorem trace_deferred_operand :
    let source : Bytes := [0x31, 0x20, 0xFF]
    let e : TokenError := .text (.ofMalformed 2 (.badLead 0xFF))
    let one : Token := ⟨.ofLength 0 1, .number 1⟩
    let p := holding e (ofTokens [one])
    let p' := holding e (between [one] [])
    DigitRunsWithin Numeral.digitLimit source ∧ start (Lexer.ofBytes source).pulls = .ok p ∧
      trace perform p [.primary, .expression]
        = [(.ok (.tree (.constant 1)), p'), (.error (.error (.token e)), p')] ∧
      p'.lookahead = .held e ∧ (reached source p'.pulled).exhausted = true := by
  intro source e one p p'
  have hwithin : DigitRunsWithin Numeral.digitLimit source :=
    digitRunsWithin_of_length (by decide)
  obtain ⟨tokens, error?, hpulls, hdeferred⟩ := trace_deferred hwithin
  have hstream : (Lexer.ofBytes source).pulls = [one].map .token ++ [lastPull (some e)] := by cbv
  obtain ⟨rfl, hlast⟩ := tokens_unique (hpulls.symm.trans hstream) (tokenless_lastPull _)
    (tokenless_lastPull _)
  obtain rfl : error? = some e := by
    cases error? with
    | none => cases hlast
    | some e' => cases hlast; rfl
  obtain ⟨hstart, hrun⟩ := hdeferred e rfl
  obtain ⟨-, htrace, hstates⟩ := hrun [.primary, .expression]
  have hanswers : trace perform p [.primary, .expression]
      = [(.ok (.tree (.constant 1)), p'), (.error (.error (.token e)), p')] := by
    rw [htrace]
    cbv
  have hmem : p' ∈ p :: (trace perform p [.primary, .expression]).map Prod.snd := by
    rw [hanswers]
    exact List.mem_cons_of_mem _ List.mem_cons_self
  obtain ⟨-, -, hheld⟩ := hstates p' hmem
  obtain ⟨-, -, hexhausted, -⟩ := hheld e rfl
  exact ⟨hwithin, hstart, hanswers, rfl, hexhausted⟩

end Arith.Parser
