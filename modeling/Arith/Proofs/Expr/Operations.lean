import Arith.Proofs.Expr.Chains
import Arith.Proofs.Expr.Checks

/-!
# Operations on one parser

A parser can be asked for several things one after the other, also after it has failed. On a list of
tokens it keeps its place through all of them: every operation reads on where the one before it has
stopped, and what is read, by those that fail too, is what stands there in the list
(`trace_inOrder`).

* `perform_between` — what one operation reads
* `inOrder_trace` — what a run of operations reads
-/

namespace Arith.Parser

open Arith.Expr (written)

/-! ## Operations -/

/-- What can be asked of a parser. -/
inductive Operation where
  | expression
  | primary
  | climb (left : Expr) (bar : Int)
  | atEnd
  | expectEnd
  deriving DecidableEq, Repr

/-- What a parser answers. -/
inductive Answer where
  | tree (e : Expr)
  | flag (b : Bool)
  | nothing
  deriving DecidableEq, Repr

/-- What a step answers, and the parser that it leaves behind, also where it fails. -/
def outcome {ε α : Type} (answer : α → Answer) :
    EStateM.Result ε Parser α → Except ε Answer × Parser
  | .ok a p => (.ok (answer a), p)
  | .error f p => (.error f, p)

/-- What an operation answers, and the parser that it leaves behind. -/
def perform (p : Parser) : Operation → Except Failure Answer × Parser
  | .expression => outcome .tree (expression p)
  | .primary => outcome .tree (primary p)
  | .climb left bar => outcome .tree (climb left bar p)
  | .atEnd => outcome .flag (atEnd p)
  | .expectEnd => outcome (fun _ => .nothing) (expectEnd p)

/-- What an operation answers that checks what it takes for granted. -/
def performChecked (p : Parser) : Operation → Except Alarm Answer × Parser
  | .expression => outcome .tree (expressionChecked p)
  | .primary => outcome .tree (primaryChecked p)
  | .climb left bar => outcome .tree (climbChecked left bar p)
  | .atEnd => outcome .flag (unchecked atEnd p)
  | .expectEnd => outcome (fun _ => .nothing) (unchecked expectEnd p)

/--
What is answered to some operations one after the other, each answer with the parser behind it.
-/
def trace {ε : Type} (perform : Parser → Operation → Except ε Answer × Parser) (p : Parser) :
    List Operation → List (Except ε Answer × Parser)
  | [] => []
  | op :: ops => perform p op :: trace perform (perform p op).2 ops

/-! ## The place of a parser -/

/--
A parser has consumed so many tokens of a list: it sees the next one ahead, if there is one, and has
pulled no token behind that.
-/
structure Stands (tokens : List Token) (consumed : Nat) (p : Parser) : Prop where
  consumed_le : consumed ≤ tokens.length
  lookahead_eq : p.lookahead = tokens[consumed]?.elim .finished .token
  stream_eq : p.stream = (tokens.drop (consumed + 1)).map .token
  /-- The tokens that were taken from the list. -/
  taken_eq : tokens.length - p.stream.length = min (consumed + 1) tokens.length
  lastEnd_eq : p.lastEnd = endOf (tokens.take consumed)
  pulled_eq : p.pulled = consumed + 1

theorem stands_between (passed rest : List Token) :
    Stands (passed ++ rest) passed.length (between passed rest) where
  consumed_le := by simp
  lookahead_eq := by cases rest <;> simp [between, Lookahead.ofTokens]
  stream_eq := by cases rest <;> simp [between]
  taken_eq := by
    simp only [between, List.length_append, List.length_map, List.length_tail]
    omega
  lastEnd_eq := by simp [between]
  pulled_eq := rfl

/-- The place of a parser says everything about it. -/
theorem Stands.eq_between {tokens : List Token} {consumed : Nat} {p : Parser}
    (h : Stands tokens consumed p) :
    p = between (tokens.take consumed) (tokens.drop consumed) := by
  have hplace := stands_between (tokens.take consumed) (tokens.drop consumed)
  rw [List.take_append_drop, List.length_take, Nat.min_eq_left h.consumed_le] at hplace
  obtain ⟨stream, lookahead, lastEnd, pulled⟩ := p
  rw [mk.injEq]
  exact ⟨h.stream_eq.trans hplace.stream_eq.symm, h.lookahead_eq.trans hplace.lookahead_eq.symm,
    h.lastEnd_eq.trans hplace.lastEnd_eq.symm, h.pulled_eq.trans hplace.pulled_eq.symm⟩

/-! ## What operations read -/

/--
What an operation answers on a list of tokens of which some were passed before, what it reads there,
and what it leaves.
-/
inductive Reads (passed : List Token) :
    Operation → Except Failure Answer → (read rest : List Token) → Prop
  /-- An operand is a number. -/
  | primary {t : Token} {n : Int} {rest : List Token} (ht : t.lexeme = .number n) :
      Reads passed .primary (.ok (.tree (.constant n))) [t] rest
  /-- An operand that is missing. -/
  | noPrimary {rest : List Token} (next : ∀ t ∈ rest.head?, t.lexeme.kind ≠ .number) :
      Reads passed .primary (.error (.error (missingOperand passed (rest.map .token)))) [] rest
  /-- Climbing returns its left side and all that was read, up to an operator that is too loose. -/
  | climb {left e : Expr} {bar : Int} {read rest : List Token}
      (inorder_eq : e.inorder = left.inorder ++ read.map Token.lexeme) (stops : Loose bar rest) :
      Reads passed (.climb left bar) (.ok (.tree e)) read rest
  /-- Climbing fails behind the operator that was read last. -/
  | climbFails {left e : Expr} {bar : Int} {op : Operator} {read rest : List Token}
      (inorder_eq : e.inorder ++ [.symbol op.symbol] = left.inorder ++ read.map Token.lexeme)
      (tight : bar ≤ op.precedence) (next : ∀ t ∈ rest.head?, t.lexeme.kind ≠ .number) :
      Reads passed (.climb left bar)
        (.error (.error (missingOperand (passed ++ read) (rest.map .token)))) read rest
  /-- An expression is all that was read, and no operator comes next. -/
  | expression {e : Expr} {read rest : List Token}
      (inorder_eq : e.inorder = read.map Token.lexeme) (stops : Loose 0 rest) :
      Reads passed .expression (.ok (.tree e)) read rest
  /-- An expression fails at once. -/
  | noExpression {rest : List Token} (next : ∀ t ∈ rest.head?, t.lexeme.kind ≠ .number) :
      Reads passed .expression (.error (.error (missingOperand passed (rest.map .token)))) [] rest
  /-- An expression fails behind the operator that was read last. -/
  | expressionFails {e : Expr} {op : Operator} {read rest : List Token}
      (inorder_eq : e.inorder ++ [.symbol op.symbol] = read.map Token.lexeme)
      (next : ∀ t ∈ rest.head?, t.lexeme.kind ≠ .number) :
      Reads passed .expression
        (.error (.error (missingOperand (passed ++ read) (rest.map .token)))) read rest
  | atEnd {rest : List Token} : Reads passed .atEnd (.ok (.flag rest.isEmpty)) [] rest
  | expectEnd : Reads passed .expectEnd (.ok .nothing) [] []
  | leftOver {t : Token} {rest : List Token} :
      Reads passed .expectEnd (.error (.error (.leftOver t))) [] (t :: rest)

/--
The answers to some operations follow a list of tokens in order: each operation reads on where the
one before it has stopped, and leaves the parser where it stops itself.
-/
inductive InOrder : (passed rest : List Token) → List Operation →
    List (Except Failure Answer × Parser) → Prop
  | done (passed rest : List Token) : InOrder passed rest [] []
  | step {passed read rest : List Token} {op : Operation} {ops : List Operation}
      {answer : Except Failure Answer} {p : Parser} {later : List (Except Failure Answer × Parser)}
      (reads : Reads passed op answer read rest)
      (stands : Stands (passed ++ read ++ rest) (passed ++ read).length p)
      (follows : InOrder (passed ++ read) rest ops later) :
      InOrder passed (read ++ rest) (op :: ops) ((answer, p) :: later)

/-! ## One operation -/

theorem exists_number_or_missing (tokens : List Token) :
    (∃ (t : Token) (n : Int) (rest : List Token), tokens = t :: rest ∧ t.lexeme = .number n) ∨
      ∀ t ∈ tokens.head?, t.lexeme.kind ≠ .number := by
  cases tokens with
  | nil => exact Or.inr fun _ h => nomatch h
  | cons t rest =>
    by_cases h : t.lexeme.kind = .number
    · obtain ⟨n, hn⟩ := exists_eq_number h
      exact Or.inl ⟨t, n, rest, rfl, hn⟩
    · refine Or.inr fun u hu => ?_
      rwa [← Option.some.inj hu]

theorem primary_between_number {t : Token} {n : Int} (ht : t.lexeme = .number n)
    (passed rest : List Token) :
    primary (between passed (t :: rest)) = .ok (.constant n) (between (passed ++ [t]) rest) := by
  rw [← facing_eq_between, ← facing_eq_between]
  exact primary_facing_number ht (pullable_map rest)

theorem primary_between_missing {tokens : List Token}
    (h : ∀ t ∈ tokens.head?, t.lexeme.kind ≠ .number) (passed : List Token) :
    primary (between passed tokens)
      = .error (.error (missingOperand passed (tokens.map .token))) (between passed tokens) := by
  rw [← facing_eq_between]
  exact primary_of_noNumber (noNumber_map h) passed

/-- Climbing reads the longest chain, and one operator more if it fails. -/
theorem perform_climb (left : Expr) (bar : Int) (passed tokens : List Token) :
    ∃ answer read rest, tokens = read ++ rest ∧
      perform (between passed tokens) (.climb left bar) = (answer, between (passed ++ read) rest) ∧
      Reads passed (.climb left bar) answer read rest := by
  obtain ⟨ops, chain, rest, h⟩ := exists_longestChain bar tokens
  let e := (Expr.ofOperations 0 ops).graft left
  have hinorder : e.inorder = left.inorder ++ chain.map Token.lexeme := by
    rw [Expr.inorder_graft, Expr.operations_ofOperations, h.reads]
  rcases loose_or_exists bar rest with hloose | ⟨t, behind, op, rfl, ht, hbar⟩
  · refine ⟨.ok (.tree e), chain, rest, h.tokens_eq, ?_, .climb hinorder hloose⟩
    rw [perform, h.climb_eq_ok hloose left passed]
    rfl
  · have hread : e.inorder ++ [.symbol op.symbol]
        = left.inorder ++ (chain ++ [t]).map Token.lexeme := by
      simp [hinorder, ht]
    refine ⟨_, chain ++ [t], behind, by simp [h.tokens_eq], ?_,
      .climbFails hread hbar (h.no_operand ht hbar)⟩
    rw [perform, h.climb_eq_error ht hbar left passed, List.append_assoc]
    rfl

/-- **One operation** answers with what stands at its place, and passes just what it reads. -/
theorem perform_between (passed tokens : List Token) (op : Operation) :
    ∃ answer read rest, tokens = read ++ rest ∧
      perform (between passed tokens) op = (answer, between (passed ++ read) rest) ∧
      Reads passed op answer read rest := by
  cases op with
  | climb left bar => exact perform_climb left bar passed tokens
  | primary =>
    rcases exists_number_or_missing tokens with ⟨t, n, rest, rfl, ht⟩ | hnone
    · refine ⟨_, [t], rest, rfl, ?_, .primary ht⟩
      rw [perform, primary_between_number ht]
      rfl
    · refine ⟨_, [], tokens, rfl, ?_, .noPrimary hnone⟩
      rw [perform, primary_between_missing hnone, List.append_nil]
      rfl
  | expression =>
    rcases exists_number_or_missing tokens with ⟨t, n, tokens, rfl, ht⟩ | hnone
    · have hcall : perform (between passed (t :: tokens)) .expression
          = perform (between (passed ++ [t]) tokens) (.climb (.constant n) 0) := by
        rw [perform, expression_eq, primary_between_number ht]
        rfl
      obtain ⟨answer, read, rest, rfl, hperform, hreads⟩ :=
        perform_climb (.constant n) 0 (passed ++ [t]) tokens
      have hread : (t :: read).map Token.lexeme
          = (Expr.constant n).inorder ++ read.map Token.lexeme := by
        rw [List.map_cons, ht]
        rfl
      refine ⟨answer, t :: read, rest, rfl, ?_, ?_⟩
      · rw [hcall, hperform, List.append_assoc, List.singleton_append]
      · cases hreads with
        | climb inorder_eq stops => exact .expression (inorder_eq.trans hread.symm) stops
        | climbFails inorder_eq tight next =>
          rw [List.append_assoc, List.singleton_append]
          exact .expressionFails (inorder_eq.trans hread.symm) next
    · refine ⟨_, [], tokens, rfl, ?_, .noExpression hnone⟩
      rw [perform, expression_eq, primary_between_missing hnone, List.append_nil]
      rfl
  | atEnd =>
    refine ⟨_, [], tokens, rfl, ?_, .atEnd⟩
    rw [List.append_nil]
    cases tokens <;> rfl
  | expectEnd =>
    cases tokens with
    | nil => exact ⟨_, [], [], rfl, by rw [List.append_nil]; rfl, .expectEnd⟩
    | cons t rest => exact ⟨_, [], t :: rest, rfl, by rw [List.append_nil]; rfl, .leftOver⟩

/-! ## Runs of operations -/

theorem inOrder_trace (passed tokens : List Token) (ops : List Operation) :
    InOrder passed tokens ops (trace perform (between passed tokens) ops) := by
  induction ops generalizing passed tokens with
  | nil => exact .done passed tokens
  | cons op ops ih =>
    obtain ⟨answer, read, rest, rfl, hperform, hreads⟩ := perform_between passed tokens op
    rw [trace, hperform]
    exact .step hreads (stands_between (passed ++ read) rest) (ih (passed ++ read) rest)

/-- Whatever was asked of a parser, it stands at a place of the list. -/
theorem InOrder.exists_stands {passed tokens : List Token} {ops : List Operation}
    {answers : List (Except Failure Answer × Parser)} (h : InOrder passed tokens ops answers) :
    ∀ answer ∈ answers, ∃ consumed, Stands (passed ++ tokens) consumed answer.2 := by
  induction h with
  | done => exact List.forall_mem_nil _
  | step reads stands follows ih =>
    rw [List.append_assoc] at ih stands
    rw [List.forall_mem_cons]
    exact ⟨⟨_, stands⟩, ih⟩

/-- An operation that changes nothing answers the same again and again. -/
theorem trace_replicate {p : Parser} {op : Operation} (h : (perform p op).2 = p) (count : Nat) :
    trace perform p (List.replicate count op) = List.replicate count ((perform p op).1, p) := by
  have hperform : perform p op = ((perform p op).1, p) := Prod.ext rfl h
  induction count with
  | zero => rfl
  | succ count ih => rw [List.replicate_succ, List.replicate_succ, trace, h, ih, ← hperform]

/--
The operations that change nothing at a parser: those that only look ahead, and the one that reads
an operand where it fails.
-/
def Idle (p : Parser) (op : Operation) : Prop :=
  op = .atEnd ∨ op = .expectEnd ∨ op = .primary ∧ ∃ f, (perform p op).1 = .error f

theorem Stands.perform_idle {tokens : List Token} {consumed : Nat} {p : Parser} {op : Operation}
    (h : Stands tokens consumed p) (hidle : Idle p op) : (perform p op).2 = p := by
  obtain rfl := h.eq_between
  obtain ⟨answer, read, rest, hsplit, hperform, hreads⟩ :=
    perform_between (tokens.take consumed) (tokens.drop consumed) op
  have hread : read = [] := by
    rcases hidle with rfl | rfl | ⟨rfl, f, hf⟩
    · cases hreads; rfl
    · cases hreads <;> rfl
    · rw [hperform] at hf
      cases hreads with
      | primary ht => cases hf
      | noPrimary next => rfl
  subst hread
  rw [hperform, hsplit, List.append_nil, List.nil_append]

/-- An outcome without alarm. -/
def calm (o : Except Failure Answer × Parser) : Except Alarm Answer × Parser :=
  (o.1.mapError .failure, o.2)

theorem outcome_quiet {α : Type} (answer : α → Answer) (r : EStateM.Result Failure Parser α) :
    outcome answer (quiet r) = calm (outcome answer r) := by
  cases r <;> rfl

/-- **No operation raises an alarm.** -/
theorem performChecked_eq (p : Parser) (op : Operation) :
    performChecked p op = calm (perform p op) := by
  cases op with
  | expression => rw [performChecked, expressionChecked_eq, outcome_quiet, perform]
  | primary => rw [performChecked, primaryChecked_eq, outcome_quiet, perform]
  | climb left bar => rw [performChecked, climbChecked_eq, outcome_quiet, perform]
  | atEnd => rw [performChecked, unchecked, outcome_quiet, perform]
  | expectEnd => rw [performChecked, unchecked, outcome_quiet, perform]

theorem trace_performChecked (p : Parser) (ops : List Operation) :
    trace performChecked p ops = (trace perform p ops).map calm := by
  induction ops generalizing p with
  | nil => rfl
  | cons op ops ih =>
    rw [trace, trace, performChecked_eq, List.map_cons, calm, ih]

/--
**A parser keeps its place in a list of tokens**, whatever is asked of it. It stands at the first
token in the beginning, and the answers follow the tokens in order. What only looks, and what fails
to read an operand, can be repeated at every place and changes nothing. No alarm is ever raised.
-/
theorem trace_inOrder (tokens : List Token) (ops : List Operation) :
    let p := ofTokens tokens
    Stands tokens 0 p ∧ InOrder [] tokens ops (trace perform p ops) ∧
      (∀ p' ∈ p :: (trace perform p ops).map Prod.snd, ∀ op, Idle p' op → ∀ count,
        trace perform p' (List.replicate count op)
          = List.replicate count ((perform p' op).1, p')) ∧
      trace performChecked p ops = (trace perform p ops).map calm := by
  intro p
  have hstands : Stands tokens 0 p := by
    rw [show p = between [] tokens from ofTokens_eq_between tokens]
    exact stands_between [] tokens
  have horder : InOrder [] tokens ops (trace perform p ops) := by
    rw [show p = between [] tokens from ofTokens_eq_between tokens]
    exact inOrder_trace [] tokens ops
  refine ⟨hstands, horder, ?_, trace_performChecked p ops⟩
  intro p' hp' op hidle count
  obtain ⟨consumed, hstands'⟩ : ∃ consumed, Stands tokens consumed p' := by
    rcases List.mem_cons.1 hp' with rfl | hp'
    · exact ⟨0, hstands⟩
    · obtain ⟨answer, hanswer, rfl⟩ := List.mem_map.1 hp'
      exact horder.exists_stands answer hanswer
  exact trace_replicate (hstands'.perform_idle hidle) count

/-- An operand is missing in `1 + * 2`, and reading it again and again changes nothing. -/
theorem trace_inOrder_missing :
    let star : Token := ⟨.ofLength 4 1, .symbol .star⟩
    let passed : List Token := [⟨.ofLength 0 1, .number 1⟩, ⟨.ofLength 2 1, .symbol .plus⟩]
    let tokens := passed ++ [star, ⟨.ofLength 6 1, .number 2⟩]
    let p := ofTokens tokens
    let p' := between passed (tokens.drop 2)
    let answer : Except Failure Answer := .error (.error (.notAnExpression star))
    trace perform p [.expression] = [(answer, p')] ∧
      p' ∈ p :: (trace perform p [.expression]).map Prod.snd ∧ Idle p' .primary ∧
      trace perform p' (List.replicate 3 .primary) = List.replicate 3 (answer, p') := by
  intro star passed tokens p p' answer
  have htrace : trace perform p [.expression] = [(answer, p')] := by cbv
  have hanswer : (perform p' .primary).1 = answer := by cbv
  have hmem : p' ∈ p :: (trace perform p [.expression]).map Prod.snd := by
    rw [htrace]
    exact List.mem_cons_of_mem _ List.mem_cons_self
  have hidle : Idle p' .primary := Or.inr (Or.inr ⟨rfl, _, hanswer⟩)
  have hrepeat := (trace_inOrder tokens [.expression]).2.2.1 p' hmem .primary hidle 3
  rw [hanswer] at hrepeat
  exact ⟨htrace, hmem, hidle, hrepeat⟩

end Arith.Parser
