import Arith.Proofs.Expr.Climbing

/-!
# Which error a parser reports

Numbers stand at the even places of an expression and operators at the odd ones. The first token
that stands at a place of the other sort is the one that is reported, and a token error that comes
behind it is never seen. Behind an even number of well-placed tokens an operand is missing
(`expression_of_even`), behind an odd number the expression is complete (`expression_of_odd`).

Climbing has to be followed through all its calls only once: it stops where the chain of operations
stops (`climb_endsAt`), and what it reports there is decided by the front of the stream alone.
Conversely, an expression that was read stands at the front of the stream (`eq_of_expression_ok`).
-/

namespace Arith.Parser

open Arith.Expr (written)

/-! ## Where climbing ends -/

/-- No operation that can be read and binds tight enough stands at the front of a stream. -/
def Blocked (bar : Int) (stream : List Pull) : Prop :=
  ∀ (t u : Token) (rest : List Pull) (op : Operator) (n : Int),
    stream = .token t :: .token u :: rest → Pullable rest → t.lexeme = .symbol op.symbol →
      u.lexeme = .number n → (op.precedence : Int) < bar

/-- A stream that never fails without a token error. -/
def Faultless (stream : List Pull) : Prop := ∀ f, .fault f ∉ stream

theorem Faultless.pullable {stream : List Pull} (h : Faultless stream) : Pullable stream := by
  cases stream with
  | nil => trivial
  | cons first rest =>
    cases first with
    | fault f => exact absurd List.mem_cons_self (h f)
    | _ => trivial

theorem faultless_tokens (tokens : List Token) {stream : List Pull} (h : Faultless stream) :
    Faultless (tokens.map .token ++ stream) := by
  intro f hf
  rcases List.mem_append.mp hf with hf | hf
  · obtain ⟨t, -, ht⟩ := List.mem_map.mp hf
    cases ht
  · exact h f hf

/-- A climb ends only where it is blocked. -/
theorem EndsAt.blocked {bar : Int} {outcome : EStateM.Result Failure Parser Expr}
    {passed : List Token} {stream : List Pull} (h : EndsAt bar outcome (facing passed stream)) :
    Blocked bar stream := by
  rintro t u rest op n rfl hrest ht hu
  apply Int.not_le.mp
  intro hbar
  rcases h with ⟨e, -, hnone⟩ | ⟨f, p, bar', -, hbar', herror⟩
  · rw [operation?_facing ht hu hbar hrest] at hnone
    cases hnone
  · by_cases htight : bar' ≤ op.precedence
    · rw [operation?_facing ht hu htight hrest] at herror
      cases herror
    · rw [operation?_of_loose_symbol ht (Int.not_le.mp htight)] at herror
      cases herror

/-- A stream splits in one way into operations that bind tight enough and a blocked rest. -/
theorem chain_unique {bar : Int} {ops ops' : List (Operator × Int)} {head head' : List Token}
    {s s' : List Pull} (hstream : head.map Pull.token ++ s = head'.map .token ++ s')
    (hhead : head.map Token.lexeme = written ops) (hhead' : head'.map Token.lexeme = written ops')
    (hops : ∀ o ∈ ops, bar ≤ o.1.precedence) (hops' : ∀ o ∈ ops', bar ≤ o.1.precedence)
    (hs : Blocked bar s) (hs' : Blocked bar s') (hpull : Pullable s) (hpull' : Pullable s') :
    head = head' ∧ s = s' := by
  induction ops generalizing ops' head head' with
  | nil =>
    obtain rfl : head = [] := List.map_eq_nil_iff.mp hhead
    cases ops' with
    | nil =>
      obtain rfl : head' = [] := List.map_eq_nil_iff.mp hhead'
      exact ⟨rfl, hstream⟩
    | cons o ops' =>
      obtain ⟨t, u, head', rfl, ht, hu, -⟩ := Expr.exists_eq_cons_of_written hhead'
      have := hs t u _ o.1 o.2 hstream (pullable_tokens head' hpull') ht hu
      have := hops' o List.mem_cons_self
      omega
  | cons o ops ih =>
    obtain ⟨t, u, head, rfl, ht, hu, hread⟩ := Expr.exists_eq_cons_of_written hhead
    cases ops' with
    | nil =>
      obtain rfl : head' = [] := List.map_eq_nil_iff.mp hhead'
      have := hs' t u _ o.1 o.2 hstream.symm (pullable_tokens head hpull) ht hu
      have := hops o List.mem_cons_self
      omega
    | cons o' ops' =>
      obtain ⟨t', u', head', rfl, -, -, hread'⟩ := Expr.exists_eq_cons_of_written hhead'
      simp only [List.map_cons, List.cons_append, List.cons.injEq, Pull.token.injEq] at hstream
      obtain ⟨rfl, rfl, hstream⟩ := hstream
      obtain ⟨rfl, rfl⟩ := ih hstream hread hread'
        (fun o ho => hops o (List.mem_cons_of_mem _ ho))
        (fun o ho => hops' o (List.mem_cons_of_mem _ ho))
      exact ⟨rfl, rfl⟩

/-- **Climbing ends behind the longest chain of operations that bind tight enough.** -/
theorem climb_endsAt {bar : Int} {ops : List (Operator × Int)} {head : List Token}
    {stream : List Pull} (hhead : head.map Token.lexeme = written ops)
    (hops : ∀ o ∈ ops, bar ≤ o.1.precedence) (hstream : Pullable stream)
    (hblocked : Blocked bar stream) (left : Expr) (passed : List Token) :
    EndsAt bar (climb left bar (facing passed (head.map .token ++ stream)))
      (facing (passed ++ head) stream) := by
  obtain ⟨head', ops', stream', heq, hhead', hops', hstream', hends⟩ :=
    climb_split left bar passed (pullable_tokens head hstream)
  obtain ⟨rfl, rfl⟩ :=
    chain_unique heq hhead hhead' hops hops' hblocked hends.blocked hstream hstream'
  exact hends

/-! ## An operand that is missing -/

/-- The error of a parser that needs an operand and does not see a number ahead. -/
def missingOperand (passed : List Token) : List Pull → ParseError
  | .token t :: _ => .notAnExpression t
  | .error e :: _ => .token e
  | _ => .unexpectedEnd (endOf passed)

/-- No number stands at the front of a stream. -/
def NoNumber (stream : List Pull) : Prop :=
  ∀ (t : Token) (rest : List Pull), stream = .token t :: rest → t.lexeme.kind ≠ .number

theorem primary_of_noNumber {stream : List Pull} (h : NoNumber stream) (passed : List Token) :
    primary (facing passed stream)
      = .error (.error (missingOperand passed stream)) (facing passed stream) := by
  rw [primary_eq]
  cases stream with
  | nil => rfl
  | cons first rest =>
    cases first with
    | token t =>
      have ht := h t rest rfl
      rw [facing_token]
      cases hl : t.lexeme with
      | number n =>
        rw [hl] at ht
        exact absurd rfl ht
      | _ =>
        simp only [hl]
        rfl
    | _ => rfl

/-- Behind an operator, the missing operand is reported. -/
theorem operation?_of_noNumber {stream : List Pull} (h : NoNumber stream)
    (hstream : Pullable stream) {t : Token} {op : Operator} (ht : t.lexeme = .symbol op.symbol)
    {bar : Int} (hbar : bar ≤ op.precedence) (passed : List Token) :
    operation? bar (facing passed (.token t :: stream))
      = .error (.error (missingOperand (passed ++ [t]) stream))
          (facing (passed ++ [t]) stream) := by
  have hc := consume_facing passed t hstream
  have hop : Operator.ofKind? t.lexeme.kind = some op := by
    rw [ht]
    exact Operator.ofKind?_symbol op
  rw [operation?_eq]
  rw [facing_token] at hc ⊢
  simp only [hop, hc, primary_of_noNumber h, if_neg (Int.not_lt.mpr hbar)]

/-- **An operation that cannot be read behind a chain of others fails at once**, however deep
climbing stands in its calls. -/
theorem climb_of_failing {bar : Int} {o : Token} {ops : List (Operator × Int)} {op : Operator}
    {passed head : List Token} {stream : List Pull} {f : Failure} {p : Parser}
    (hhead : head.map Token.lexeme = written ops) (hops : ∀ o ∈ ops, bar ≤ o.1.precedence)
    (ho : o.lexeme = .symbol op.symbol) (hbar : bar ≤ op.precedence)
    (hfail : ∀ bar' : Int, bar' ≤ op.precedence →
      operation? bar' (facing (passed ++ head) (.token o :: stream)) = .error f p) (left : Expr) :
    climb left bar (facing passed (head.map .token ++ .token o :: stream)) = .error f p := by
  have hstream : Pullable (.token o :: stream) := trivial
  have hblocked : Blocked bar (.token o :: stream) := by
    intro t' u rest op' n heq hrest ht' hu
    cases heq
    apply Int.not_le.mp
    intro hbar'
    have hread : operation? bar (facing (passed ++ head) (.token o :: .token u :: rest)) = _ :=
      operation?_facing ht' hu hbar' hrest
    rw [hfail bar hbar] at hread
    cases hread
  have hends := climb_endsAt hhead hops hstream hblocked left passed
  rcases hends with ⟨e, -, hnone⟩ | ⟨g, p', bar', hclimb, -, herror⟩
  · rw [hfail bar hbar] at hnone
    cases hnone
  · have htight : bar' ≤ op.precedence := by
      apply Int.not_lt.mp
      intro hloose
      rw [operation?_of_loose_symbol ho hloose] at herror
      cases herror
    rw [hfail bar' htight] at herror
    cases herror
    exact hclimb

theorem expression_of_failing {t o : Token} {n : Int} {ops : List (Operator × Int)}
    {op : Operator} {head : List Token} {stream : List Pull} {f : Failure} {p : Parser}
    (ht : t.lexeme = .number n) (hhead : head.map Token.lexeme = written ops)
    (ho : o.lexeme = .symbol op.symbol)
    (hfail : ∀ bar : Int, bar ≤ op.precedence →
      operation? bar (facing (t :: head) (.token o :: stream)) = .error f p) :
    expression (facing [] (.token t :: (head.map .token ++ .token o :: stream))) = .error f p := by
  have hstream : Pullable (.token o :: stream) := trivial
  rw [expression_eq, primary_facing_number ht (pullable_tokens head hstream)]
  exact climb_of_failing hhead (fun o _ => Int.natCast_nonneg o.1.precedence) ho
    (Int.natCast_nonneg op.precedence) hfail (.constant n)

/-- An operand that is missing behind a chain of operations is reported. -/
theorem expression_of_missing {t o : Token} {n : Int} {ops : List (Operator × Int)}
    {op : Operator} {head : List Token} {stream : List Pull} (ht : t.lexeme = .number n)
    (hhead : head.map Token.lexeme = written ops) (ho : o.lexeme = .symbol op.symbol)
    (hstream : Pullable stream) (h : NoNumber stream) :
    expression (facing [] (.token t :: (head.map .token ++ .token o :: stream)))
      = .error (.error (missingOperand (t :: head ++ [o]) stream))
          (facing (t :: head ++ [o]) stream) :=
  expression_of_failing ht hhead ho fun _ hbar =>
    operation?_of_noNumber h hstream ho hbar (t :: head)

/-! ## The first token that stands at a wrong place -/

/--
A token stands at a wrong place, counted from 0: numbers belong to the even places of an
expression, operators to the odd ones.
-/
def Misplaced (place : Nat) (t : Token) : Prop :=
  if place % 2 = 0 then t.lexeme.kind ≠ .number else Operator.ofKind? t.lexeme.kind = none

instance decidableMisplaced (place : Nat) (t : Token) : Decidable (Misplaced place t) :=
  inferInstanceAs (Decidable (ite _ _ _))

/-- All tokens stand at right places, the first of them at `place`. -/
def Placed (place : Nat) (tokens : List Token) : Prop :=
  ∀ (i : Nat) (h : i < tokens.length), ¬ Misplaced (place + i) tokens[i]

theorem Placed.head {place : Nat} {t : Token} {tokens : List Token}
    (h : Placed place (t :: tokens)) : ¬ Misplaced place t :=
  h 0 (Nat.succ_pos _)

theorem Placed.tail {place : Nat} {t : Token} {tokens : List Token}
    (h : Placed place (t :: tokens)) : Placed (place + 1) tokens := by
  intro i hi
  have := h (i + 1) (Nat.succ_lt_succ hi)
  rw [show place + 1 + i = place + (i + 1) by omega]
  exact this

theorem placed_nil (place : Nat) : Placed place [] := fun _ h => absurd h (Nat.not_lt_zero _)

theorem Placed.cons {place : Nat} {t : Token} {tokens : List Token} (ht : ¬ Misplaced place t)
    (h : Placed (place + 1) tokens) : Placed place (t :: tokens) := by
  intro i hi
  cases i with
  | zero => exact ht
  | succ i =>
    rw [show place + (i + 1) = place + 1 + i by omega]
    exact h i (Nat.lt_of_succ_lt_succ hi)

/-- The first token that stands at a wrong place, with its place. -/
def firstMisplaced? (place : Nat) : List Token → Option (Token × Nat)
  | [] => none
  | t :: tokens => if Misplaced place t then some (t, place) else firstMisplaced? (place + 1) tokens

/-- All tokens before the first one at a wrong place stand at right places. -/
theorem firstMisplaced?_eq_some {place j : Nat} {tokens : List Token} {t : Token}
    (h : firstMisplaced? place tokens = some (t, j)) :
    ∃ before behind, tokens = before ++ t :: behind ∧ place + before.length = j ∧
      Placed place before ∧ Misplaced j t := by
  induction tokens generalizing place with
  | nil => cases h
  | cons u tokens ih =>
    rw [firstMisplaced?] at h
    split at h
    next hu =>
      cases h
      exact ⟨[], tokens, rfl, rfl, placed_nil j, hu⟩
    next hu =>
      obtain ⟨before, behind, rfl, rfl, hbefore, ht⟩ := ih h
      exact ⟨u :: before, behind, rfl, by rw [List.length_cons]; omega, hbefore.cons hu, ht⟩

theorem firstMisplaced?_eq_none {place : Nat} {tokens : List Token}
    (h : firstMisplaced? place tokens = none) : Placed place tokens := by
  induction tokens generalizing place with
  | nil => exact placed_nil place
  | cons u tokens ih =>
    rw [firstMisplaced?] at h
    split at h
    next => cases h
    next hu => exact (ih h).cons hu

theorem exists_eq_number {l : Lexeme} (h : l.kind = .number) : ∃ n, l = .number n := by
  cases l with
  | number n => exact ⟨n, rfl⟩
  | _ => cases h

theorem exists_number_of_not_misplaced {place : Nat} {t : Token} (heven : place % 2 = 0)
    (h : ¬ Misplaced place t) : ∃ n, t.lexeme = .number n := by
  rw [Misplaced, if_pos heven, Decidable.not_not] at h
  exact exists_eq_number h

theorem exists_symbol_of_not_misplaced {place : Nat} {t : Token} (hodd : place % 2 = 1)
    (h : ¬ Misplaced place t) : ∃ op : Operator, t.lexeme = .symbol op.symbol := by
  rw [Misplaced, if_neg (by omega)] at h
  cases ho : Operator.ofKind? t.lexeme.kind with
  | none => exact absurd ho h
  | some op => exact ⟨op, Operator.eq_symbol_of_ofKind? ho⟩

/-- Tokens at right places behind an operand: operations, and perhaps one operator more. -/
theorem exists_chain_of_placed {place : Nat} (hodd : place % 2 = 1) :
    ∀ {tokens : List Token}, Placed place tokens →
      ∃ head ops, head.map Token.lexeme = written ops ∧
        (tokens = head ∨
          ∃ (o : Token) (op : Operator), o.lexeme = .symbol op.symbol ∧ tokens = head ++ [o])
  | [], _ => ⟨[], [], rfl, Or.inl rfl⟩
  | [o], h => by
    obtain ⟨op, ho⟩ := exists_symbol_of_not_misplaced hodd h.head
    exact ⟨[], [], rfl, Or.inr ⟨o, op, ho, rfl⟩⟩
  | t :: u :: tokens, h => by
    obtain ⟨op, ht⟩ := exists_symbol_of_not_misplaced hodd h.head
    obtain ⟨n, hu⟩ := exists_number_of_not_misplaced (by omega) h.tail.head
    have hodd' : (place + 1 + 1) % 2 = 1 := by omega
    obtain ⟨head, ops, hhead, htokens⟩ := exists_chain_of_placed hodd' h.tail.tail
    refine ⟨t :: u :: head, (op, n) :: ops, by simp [ht, hu, hhead], ?_⟩
    rcases htokens with rfl | ⟨o, op', ho, rfl⟩
    · exact Or.inl rfl
    · exact Or.inr ⟨o, op', ho, rfl⟩

/-- Behind an even number of tokens at right places an operand is missing. -/
theorem expression_of_even {tokens : List Token} {stream : List Pull} (hplaced : Placed 0 tokens)
    (heven : tokens.length % 2 = 0) (hstream : Pullable stream) (h : NoNumber stream) :
    expression (facing [] (tokens.map .token ++ stream))
      = .error (.error (missingOperand tokens stream)) (facing tokens stream) := by
  cases tokens with
  | nil =>
    rw [expression_eq, List.map_nil, List.nil_append, primary_of_noNumber h]
  | cons t tokens =>
    obtain ⟨n, ht⟩ := exists_number_of_not_misplaced rfl hplaced.head
    obtain ⟨head, ops, hhead, rfl | ⟨o, op, ho, rfl⟩⟩ := exists_chain_of_placed rfl hplaced.tail
    · have hlength := congrArg List.length hhead
      rw [List.length_map, Expr.length_written] at hlength
      rw [List.length_cons] at heven
      omega
    · simpa using expression_of_missing ht hhead ho hstream h

/-- Behind an odd number of tokens at right places and no operator, the expression is complete. -/
theorem expression_of_odd {tokens : List Token} {stream : List Pull} (hplaced : Placed 0 tokens)
    (hodd : tokens.length % 2 = 1) (hstream : Pullable stream)
    (h : operatorAhead? stream = none) :
    ∃ e : Expr, e.inorder = tokens.map Token.lexeme ∧ e.WellGrouped ∧
      expression (facing [] (tokens.map .token ++ stream))
        = match (facing tokens stream).lookahead with
          | .held err => .error (.error (.token err)) (facing tokens stream)
          | _ => .ok e (facing tokens stream) := by
  cases tokens with
  | nil => cases hodd
  | cons t tokens =>
    obtain ⟨n, ht⟩ := exists_number_of_not_misplaced rfl hplaced.head
    obtain ⟨head, ops, hhead, rfl | ⟨o, op, ho, rfl⟩⟩ := exists_chain_of_placed rfl hplaced.tail
    · have hinorder : (Expr.ofOperations n ops).inorder = (t :: tokens).map Token.lexeme := by
        rw [Expr.inorder_eq, Expr.first_ofOperations, Expr.operations_ofOperations, List.map_cons,
          ht, hhead]
      have hgrouped := Expr.wellGrouped_ofOperations n ops
      exact ⟨_, hinorder, hgrouped, expression_of_inorder hinorder.symm hgrouped hstream h⟩
    · have hlength := congrArg List.length hhead
      rw [List.length_map, Expr.length_written] at hlength
      rw [List.length_cons, List.length_append, List.length_singleton] at hodd
      omega

/-! ## What was read, if an expression was -/

/-- Where no operation is read at all, no operator stands ahead. -/
theorem operatorAhead?_of_none {passed : List Token} {stream : List Pull} {p : Parser}
    (h : operation? 0 (facing passed stream) = .ok none p) : operatorAhead? stream = none := by
  rw [operation?_eq] at h
  cases stream with
  | nil => rfl
  | cons first rest =>
    cases first with
    | token t =>
      rw [facing_token] at h
      cases ho : Operator.ofKind? t.lexeme.kind with
      | none => exact ho
      | some op =>
        have hbar : ¬ (op.precedence : Int) < 0 := Int.not_lt.mpr (Int.natCast_nonneg _)
        simp only [ho, if_neg hbar] at h
        split at h
        · cases h
        · split at h <;> cases h
    | _ => rfl

/-- **An expression that was read stands at the front of the stream**, as the tokens that it reads
as, and it is well grouped. -/
theorem eq_of_expression_ok {stream : List Pull} {e : Expr} {p : Parser}
    (h : expression (facing [] stream) = .ok e p) :
    ∃ (tokens : List Token) (rest : List Pull), stream = tokens.map .token ++ rest ∧
      tokens.map Token.lexeme = e.inorder ∧ e.WellGrouped ∧ Pullable rest ∧
      p = facing tokens rest := by
  rw [expression_eq] at h
  cases hprimary : primary (facing [] stream) with
  | error f p1 =>
    rw [hprimary] at h
    cases h
  | ok operand p1 =>
    rw [hprimary] at h
    obtain ⟨t, n, behind, rfl, ht, rfl, hbehind, rfl⟩ := eq_of_primary_ok hprimary
    obtain ⟨head, ops, rest, rfl, hhead, hops, hrest, hends⟩ :=
      climb_split (.constant n) 0 [t] hbehind
    rw [List.nil_append] at h
    dsimp only at h
    rcases hends with ⟨e', hclimb, hnone⟩ | ⟨f, p', -, hclimb, -⟩
    · -- over the chain that was passed, climbing returns the one well-grouped tree
      have hahead := operatorAhead?_of_none hnone
      have htree := climb_of_chain hhead hops hrest (by simp [hahead]) n (.constant n) [t]
      have hgraft := Expr.graft_first (Expr.ofOperations n ops)
      rw [Expr.first_ofOperations] at hgraft
      rw [hgraft, hclimb, climb_eq, hnone] at htree
      rw [hclimb] at h
      cases h
      cases htree
      refine ⟨t :: head, rest, rfl, ?_, Expr.wellGrouped_ofOperations n ops, hrest, rfl⟩
      rw [List.map_cons, ht, hhead, Expr.inorder_eq, Expr.first_ofOperations,
        Expr.operations_ofOperations]
    · rw [hclimb] at h
      cases h

/-- A whole text is one expression, behind which nothing is left. -/
theorem whole_eq (p : Parser) :
    whole p = match expression p with
      | .error f p1 => .error f p1
      | .ok e p1 =>
        match p1.lookahead with
        | .finished => .ok e p1
        | .held err => .error (.error (.token err)) p1
        | .token t => .error (.error (.leftOver t)) p1 := by
  change EStateM.bind expression _ p = _
  unfold EStateM.bind
  cases expression p with
  | error f p1 => rfl
  | ok e p1 =>
    dsimp only
    change EStateM.bind expectEnd _ p1 = _
    unfold EStateM.bind
    have hend : expectEnd p1 = match p1.lookahead with
        | .finished => .ok () p1
        | .held err => .error (.error (.token err)) p1
        | .token t => .error (.error (.leftOver t)) p1 := by
      change EStateM.bind peek _ p1 = _
      unfold EStateM.bind peek
      cases p1.lookahead <;> rfl
    rw [hend]
    cases p1.lookahead <;> rfl

/-- A text that is an expression is its tokens, and then the stream ends. -/
theorem eq_of_whole_ok {stream : List Pull} {e : Expr} {p : Parser}
    (h : whole (facing [] stream) = .ok e p) :
    ∃ (tokens : List Token) (rest : List Pull), stream = tokens.map .token ++ rest ∧
      tokens.map Token.lexeme = e.inorder ∧ e.WellGrouped ∧ Pullable rest ∧
      (facing tokens rest).lookahead = .finished := by
  rw [whole_eq] at h
  cases hexpression : expression (facing [] stream) with
  | error f p1 =>
    rw [hexpression] at h
    cases h
  | ok e' p1 =>
    rw [hexpression] at h
    obtain ⟨tokens, rest, hstream, htokens, hgrouped, hrest, rfl⟩ := eq_of_expression_ok hexpression
    dsimp only at h
    cases hlookahead : (facing tokens rest).lookahead with
    | finished =>
      rw [hlookahead] at h
      cases h
      exact ⟨tokens, rest, hstream, htokens, hgrouped, hrest, hlookahead⟩
    | _ =>
      rw [hlookahead] at h
      cases h

end Arith.Parser
