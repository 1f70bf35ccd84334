import Arith.Expr.Parser
import Arith.Proofs.Expr.Grouping

/-!
# What climbing reads

A parser is known by the tokens it has passed and the stream it faces (`facing`). Climbing passes a
chain of operations, each an operator and a number, and stops in front of the first thing that is
none, or in front of an operator that binds too loose (`climb_split`).

The tree it returns is found by running the other way. Over the operations of a well-grouped tree,
climbing on a left side does what it does on that tree with the left side grafted in
(`climb_graft`). The induction is on the tree: the left subtree is what the loop has folded when it
meets the operator, the right subtree is what the recursive call returns.

* `climb_of_chain` — over a chain of operations, climbing returns the well-grouped tree
* `expression_ofTokens` — an expression parser returns the only well-grouped tree that reads as the
  tokens it consumes
-/

namespace Arith

/-- What a parser sees of the tokens that are left. -/
def Lookahead.ofTokens : List Token → Lookahead
  | [] => .finished
  | t :: _ => .token t

namespace Parser

open Arith.Expr (written)

/-! ## Parsers by what they passed and what they face -/

/-- Where the last of some tokens ends; 0 if there is none. -/
def endOf (passed : List Token) : Nat := passed.getLast?.elim 0 fun t => t.span.stop

/-- The parser that has passed some tokens and faces a stream, whose front it sees. -/
def facing (passed : List Token) (stream : List Pull) : Parser :=
  after (pull { stream, lastEnd := endOf passed, pulled := passed.length })

/-- A stream whose first pull does not fail. -/
def Pullable : List Pull → Prop
  | .fault _ :: _ => False
  | _ => True

/-- The operator at the front of a stream, if one stands there. -/
def operatorAhead? : List Pull → Option Operator
  | .token t :: _ => Operator.ofKind? t.lexeme.kind
  | _ => none

theorem facing_token (passed : List Token) (t : Token) (stream : List Pull) :
    facing passed (.token t :: stream)
      = { stream, lookahead := .token t, lastEnd := endOf passed, pulled := passed.length + 1 } :=
  rfl

theorem operatorAhead?_symbol {t : Token} {op : Operator} (ht : t.lexeme = .symbol op.symbol)
    (stream : List Pull) : operatorAhead? (.token t :: stream) = some op := by
  rw [operatorAhead?, ht]
  exact Operator.ofKind?_symbol op

theorem pullable_tokens (head : List Token) {stream : List Pull} (h : Pullable stream) :
    Pullable (head.map .token ++ stream) := by
  cases head with
  | nil => exact h
  | cons t head => trivial

/-- Consuming a token passes it. -/
theorem consume_facing (passed : List Token) (t : Token) {stream : List Pull}
    (h : Pullable stream) :
    consume t (facing passed (.token t :: stream)) = .ok () (facing (passed ++ [t]) stream) := by
  have hend : endOf (passed ++ [t]) = t.span.stop := by simp [endOf]
  have hlength : (passed ++ [t]).length = passed.length + 1 := by simp
  rw [facing_token]
  unfold facing
  rw [hend, hlength]
  cases stream with
  | nil => rfl
  | cons first rest =>
    cases first with
    | fault f => exact absurd h id
    | _ => rfl

/-- A token can be consumed only if the pull behind it does not fail. -/
theorem pullable_of_consume {passed : List Token} {t : Token} {stream : List Pull} {p : Parser}
    (h : consume t (facing passed (.token t :: stream)) = .ok () p) : Pullable stream := by
  cases stream with
  | nil => trivial
  | cons first rest =>
    cases first with
    | fault f => cases h
    | _ => trivial

/-! ## One operand, one operation -/

/-- An operand is a number ahead, which is consumed. -/
theorem primary_eq (p : Parser) :
    primary p = match p.lookahead with
      | .finished => .error (.error (.unexpectedEnd p.lastEnd)) p
      | .held e => .error (.error (.token e)) p
      | .token t =>
        match t.lexeme with
        | .number n =>
          match consume t p with
          | .error f p1 => .error f p1
          | .ok _ p1 => .ok (.constant n) p1
        | _ => .error (.error (.notAnExpression t)) p := by
  change EStateM.bind peek _ p = _
  unfold EStateM.bind peek
  cases p.lookahead with
  | finished => rfl
  | held e => rfl
  | token t =>
    dsimp only
    cases t.lexeme with
    | number n =>
      change EStateM.bind (consume t) _ p = _
      unfold EStateM.bind
      cases consume t p <;> rfl
    | _ => rfl

theorem primary_facing_number {passed : List Token} {t : Token} {n : Int} {stream : List Pull}
    (ht : t.lexeme = .number n) (h : Pullable stream) :
    primary (facing passed (.token t :: stream))
      = .ok (.constant n) (facing (passed ++ [t]) stream) := by
  have hc := consume_facing passed t h
  rw [primary_eq]
  rw [facing_token] at hc ⊢
  simp only [ht, hc]

/-- An operand that was read stands at the front of the stream. -/
theorem eq_of_primary_ok {passed : List Token} {stream : List Pull} {e : Expr} {p : Parser}
    (h : primary (facing passed stream) = .ok e p) :
    ∃ (t : Token) (n : Int) (rest : List Pull), stream = .token t :: rest ∧
      t.lexeme = .number n ∧ e = .constant n ∧ Pullable rest ∧
      p = facing (passed ++ [t]) rest := by
  rw [primary_eq] at h
  cases stream with
  | nil => cases h
  | cons first rest =>
    cases first with
    | token t =>
      cases ht : t.lexeme with
      | number n =>
        rw [facing_token] at h
        simp only [ht] at h
        cases hc : consume t (facing passed (.token t :: rest)) with
        | error f p1 =>
          rw [facing_token] at hc
          rw [hc] at h
          cases h
        | ok u p1 =>
          have hrest : Pullable rest := pullable_of_consume hc
          rw [consume_facing passed t hrest] at hc
          cases hc
          have hc := consume_facing passed t hrest
          rw [facing_token] at hc
          rw [hc] at h
          cases h
          exact ⟨t, n, rest, rfl, ht, rfl, hrest, rfl⟩
      | _ =>
        rw [facing_token] at h
        simp only [ht] at h
        cases h
    | _ => cases h

/-- An operation that binds tight enough is read. -/
theorem operation?_facing {passed : List Token} {t u : Token} {op : Operator} {n : Int}
    {bar : Int} {stream : List Pull} (ht : t.lexeme = .symbol op.symbol)
    (hu : u.lexeme = .number n) (hbar : bar ≤ op.precedence) (h : Pullable stream) :
    operation? bar (facing passed (.token t :: .token u :: stream))
      = .ok (some (op, .constant n)) (facing (passed ++ [t, u]) stream) := by
  have hc : consume t (facing passed (.token t :: .token u :: stream))
      = .ok () (facing (passed ++ [t]) (.token u :: stream)) := consume_facing passed t trivial
  have hp : primary (facing (passed ++ [t]) (.token u :: stream))
      = .ok (.constant n) (facing (passed ++ [t] ++ [u]) stream) := primary_facing_number hu h
  have hop : Operator.ofKind? t.lexeme.kind = some op := by
    rw [ht]
    exact Operator.ofKind?_symbol op
  rw [operation?_eq]
  rw [facing_token] at hc ⊢
  simp only [hop, hc, hp, if_neg (Int.not_lt.mpr hbar), List.append_assoc, List.cons_append,
    List.nil_append]

/-- A held error is raised. -/
theorem operation?_of_held {p : Parser} {e : TokenError} (h : p.lookahead = .held e) (bar : Int) :
    operation? bar p = .error (.error (.token e)) p := by
  rw [operation?_eq, h]

/-- Where no operator ahead binds tight enough, no operation is read. -/
theorem operation?_of_loose {passed : List Token} {stream : List Pull} {bar : Int}
    (hheld : ∀ e, (facing passed stream).lookahead ≠ .held e)
    (h : ∀ op ∈ operatorAhead? stream, (op.precedence : Int) < bar) :
    operation? bar (facing passed stream) = .ok none (facing passed stream) := by
  rw [operation?_eq]
  cases stream with
  | nil => rfl
  | cons first rest =>
    cases first with
    | token t =>
      rw [facing_token]
      dsimp only
      cases ho : Operator.ofKind? t.lexeme.kind with
      | none => rfl
      | some op => exact if_pos (h op ho)
    | error e => exact absurd rfl (hheld e)
    | _ => rfl

/-- An operator that binds too loose is left alone. -/
theorem operation?_of_loose_symbol {t : Token} {op : Operator} {bar : Int}
    (ht : t.lexeme = .symbol op.symbol) (h : (op.precedence : Int) < bar) (passed : List Token)
    (stream : List Pull) :
    operation? bar (facing passed (.token t :: stream))
      = .ok none (facing passed (.token t :: stream)) := by
  refine operation?_of_loose (fun e he => by cases he) ?_
  intro op' hop'
  rw [operatorAhead?_symbol ht] at hop'
  cases hop'
  exact h

/-- Where no operation is read, the parser stays as it is. -/
theorem eq_of_operation?_none {bar : Int} {p p' : Parser} (h : operation? bar p = .ok none p') :
    p' = p := by
  rw [operation?_eq] at h
  split at h
  · cases h; rfl
  · cases h
  · split at h
    · cases h; rfl
    · split at h
      · cases h; rfl
      · split at h
        · cases h
        · split at h <;> cases h

/-- An operation that was read stands at the front of the stream. -/
theorem eq_of_operation?_some {passed : List Token} {stream : List Pull} {bar : Int}
    {op : Operator} {operand : Expr} {p : Parser}
    (h : operation? bar (facing passed stream) = .ok (some (op, operand)) p) :
    ∃ (t u : Token) (n : Int) (rest : List Pull), stream = .token t :: .token u :: rest ∧
      t.lexeme = .symbol op.symbol ∧ u.lexeme = .number n ∧ operand = .constant n ∧
      bar ≤ op.precedence ∧ Pullable rest ∧ p = facing (passed ++ [t, u]) rest := by
  rw [operation?_eq] at h
  cases stream with
  | nil => cases h
  | cons first rest =>
    cases first with
    | token t =>
      rw [facing_token] at h
      cases ho : Operator.ofKind? t.lexeme.kind with
      | none => simp [ho] at h
      | some op' =>
        have ht : t.lexeme = .symbol op'.symbol := Operator.eq_symbol_of_ofKind? ho
        simp only [ho] at h
        rw [← facing_token] at h
        split at h
        · cases h
        next hbar =>
          cases hc : consume t (facing passed (.token t :: rest)) with
          | error f p1 => rw [hc] at h; cases h
          | ok v p1 =>
            have hrest : Pullable rest := pullable_of_consume hc
            rw [consume_facing passed t hrest] at h
            dsimp only at h
            cases hp : primary (facing (passed ++ [t]) rest) with
            | error f p2 => rw [hp] at h; cases h
            | ok e p2 =>
              rw [hp] at h
              cases h
              obtain ⟨u, n, rest, rfl, hu, rfl, hrest, rfl⟩ := eq_of_primary_ok hp
              exact ⟨t, u, n, rest, rfl, ht, hu, rfl, Int.not_lt.mp hbar, hrest, by simp⟩
    | _ => cases h

/-! ## Chains of operations -/

/-- A climb ends at a parser: no operation is read there, or reading one fails. -/
def EndsAt (bar : Int) (outcome : EStateM.Result Failure Parser Expr) (p : Parser) : Prop :=
  (∃ e, outcome = .ok e p ∧ operation? bar p = .ok none p) ∨
    ∃ f p' bar', outcome = .error f p' ∧ bar ≤ bar' ∧ operation? bar' p = .error f p'

/--
**Climbing splits its stream.** It passes a chain of operations that all bind tight enough, and
ends behind them.
-/
theorem climb_split (left : Expr) (bar : Int) (passed : List Token) {stream : List Pull}
    (hstream : Pullable stream) :
    ∃ (head : List Token) (ops : List (Operator × Int)) (rest : List Pull),
      stream = head.map .token ++ rest ∧ head.map Token.lexeme = written ops ∧
      (∀ o ∈ ops, bar ≤ o.1.precedence) ∧ Pullable rest ∧
      EndsAt bar (climb left bar (facing passed stream)) (facing (passed ++ head) rest) := by
  induction hn : stream.length using Nat.strongRecOn generalizing left bar passed stream with
  | ind n ih =>
    subst hn
    cases h : operation? bar (facing passed stream) with
    | error f p =>
      refine ⟨[], [], stream, rfl, rfl, by simp, hstream,
        Or.inr ⟨f, p, bar, ?_, Int.le_refl _, ?_⟩⟩
      · rw [climb_eq, h]
      · rw [List.append_nil, h]
    | ok found p =>
      cases found with
      | none =>
        obtain rfl := eq_of_operation?_none h
        refine ⟨[], [], stream, rfl, rfl, by simp, hstream, Or.inl ⟨left, ?_, ?_⟩⟩
        · rw [climb_eq, h, List.append_nil]
        · rw [List.append_nil, h]
      | some found =>
        obtain ⟨op, operand⟩ := found
        obtain ⟨t, u, n, behind, rfl, ht, hu, rfl, hbar, hbehind, rfl⟩ :=
          eq_of_operation?_some h
        -- what the recursive call passes belongs to the right operand
        obtain ⟨head, ops, rest, rfl, hhead, hops, hrest, hends⟩ :=
          ih behind.length (by simp only [List.length_cons]; omega) (.constant n)
            (op.precedence + 1) (passed ++ [t, u]) hbehind rfl
        have hops' : ∀ o ∈ (op, n) :: ops, bar ≤ o.1.precedence := by
          intro o ho
          rcases List.mem_cons.mp ho with rfl | ho
          · exact hbar
          · have := hops o ho
            omega
        have hpassed : passed ++ t :: u :: head = passed ++ [t, u] ++ head := by simp
        rcases hends with ⟨right, hright, -⟩ | ⟨f, p, bar', hright, hbar', hstop⟩
        · -- the loop goes on behind it
          have hloop : climb left bar (facing passed
                (.token t :: .token u :: (head.map .token ++ rest)))
              = climb (.binary op left right) bar (facing (passed ++ [t, u] ++ head) rest) := by
            rw [climb_eq, h]
            simp only [hright]
          obtain ⟨head', ops', rest', rfl, hhead', hops'', hrest', hends'⟩ :=
            ih rest.length (by simp only [List.length_cons, List.length_append]; omega)
              (.binary op left right) bar (passed ++ [t, u] ++ head) hrest rfl
          refine ⟨t :: u :: head ++ head', (op, n) :: ops ++ ops', rest', by simp,
            by simp [ht, hu, hhead, hhead'], ?_, hrest', ?_⟩
          · intro o ho
            rcases List.mem_append.mp ho with ho | ho
            · exact hops' o ho
            · exact hops'' o ho
          · rw [hloop, ← List.append_assoc, hpassed]
            exact hends'
        · refine ⟨t :: u :: head, (op, n) :: ops, rest, by simp, by simp [ht, hu, hhead], hops',
            hrest, Or.inr ⟨f, p, bar', ?_, by omega, ?_⟩⟩
          · rw [climb_eq, h]
            simp only [hright]
          · rw [hpassed, hstop]

/--
**Climbing over the operations of a well-grouped tree** does what climbing on that tree does, with
the left side grafted in.
-/
theorem climb_graft {e : Expr} (he : e.WellGrouped) {bar : Int}
    (hbar : ∀ o ∈ e.top?, bar ≤ o.precedence) {head : List Token}
    (hhead : head.map Token.lexeme = written e.operations) {stream : List Pull}
    (hstream : Pullable stream)
    (hahead : ∀ op ∈ operatorAhead? stream, ∀ o ∈ e.top?, op.precedence ≤ o.precedence)
    (left : Expr) (passed : List Token) :
    climb left bar (facing passed (head.map .token ++ stream))
      = climb (e.graft left) bar (facing (passed ++ head) stream) := by
  induction e generalizing bar head stream left passed with
  | constant n =>
    obtain rfl : head = [] := List.map_eq_nil_iff.mp hhead
    rw [List.append_nil]
    rfl
  | binary op l r ihl ihr =>
    obtain ⟨hl, hr, hleft, hright⟩ := he
    have hop : bar ≤ op.precedence := hbar op rfl
    rw [Expr.operations, Expr.written_append] at hhead
    obtain ⟨before, behind, rfl, hbefore, hbehind⟩ := List.map_eq_append_iff.mp hhead
    obtain ⟨t, u, behind, rfl, ht, hu, hbehind⟩ := Expr.exists_eq_cons_of_written hbehind
    have hrest : Pullable (behind.map .token ++ stream) := pullable_tokens behind hstream
    -- the loop folds the left subtree until it meets the operator
    have hloop : climb left bar (facing passed
          ((before ++ t :: u :: behind).map .token ++ stream))
        = climb (l.graft left) bar (facing (passed ++ before)
            (.token t :: .token u :: (behind.map .token ++ stream))) := by
      have hahead : ∀ op' ∈ operatorAhead? (.token t :: .token u :: (behind.map .token ++ stream)),
          ∀ o ∈ l.top?, op'.precedence ≤ o.precedence := by
        intro op' hop'
        rw [operatorAhead?_symbol ht] at hop'
        cases hop'
        exact hleft
      have htight : ∀ o ∈ l.top?, bar ≤ o.precedence := by
        intro o ho
        have := hleft o ho
        omega
      have hnext : Pullable (.token t :: .token u :: (behind.map .token ++ stream)) := trivial
      simpa using ihl hl htight hbefore hnext hahead left passed
    -- the recursive call folds the right subtree
    have hcall : climb (.constant r.first) (op.precedence + 1)
          (facing (passed ++ before ++ [t, u]) (behind.map .token ++ stream))
        = climb r (op.precedence + 1) (facing (passed ++ (before ++ t :: u :: behind)) stream) := by
      have htight : ∀ o ∈ r.top?, (op.precedence + 1 : Int) ≤ o.precedence := by
        intro o ho
        have := hright o ho
        omega
      have hahead' : ∀ op' ∈ operatorAhead? stream, ∀ o ∈ r.top?,
          op'.precedence ≤ o.precedence := by
        intro op' hop' o ho
        have := hahead op' hop' op rfl
        have := hright o ho
        omega
      have hclimb := ihr hr htight hbehind hstream hahead' (.constant r.first)
        (passed ++ before ++ [t, u])
      rw [Expr.graft_first] at hclimb
      simpa using hclimb
    rw [hloop, climb_eq, operation?_facing ht hu hop hrest]
    dsimp only
    rw [hcall]
    generalize hpassed : passed ++ (before ++ t :: u :: behind) = passed'
    by_cases hheld : ∃ e, (facing passed' stream).lookahead = .held e
    · obtain ⟨e, he⟩ := hheld
      rw [climb_eq r, operation?_of_held he, climb_eq _ bar, operation?_of_held he]
    · have hnone : operation? (op.precedence + 1) (facing passed' stream)
          = .ok none (facing passed' stream) := by
        refine operation?_of_loose (fun e he => hheld ⟨e, he⟩) ?_
        intro o ho
        have := hahead o ho op rfl
        omega
      rw [climb_eq r, hnone]
      rfl

/-! ## The tree that climbing returns -/

/--
Over a chain of operations that bind tight enough, climbing does what it does on the well-grouped
tree over them, with the left side in the place of its first operand `n`.
-/
theorem climb_of_chain {bar : Int} {ops : List (Operator × Int)} {head : List Token}
    {stream : List Pull} (hhead : head.map Token.lexeme = written ops)
    (hops : ∀ o ∈ ops, bar ≤ o.1.precedence) (hstream : Pullable stream)
    (hahead : ∀ op ∈ operatorAhead? stream, (op.precedence : Int) < bar)
    (n : Int) (left : Expr) (passed : List Token) :
    climb left bar (facing passed (head.map .token ++ stream))
      = climb ((Expr.ofOperations n ops).graft left) bar (facing (passed ++ head) stream) := by
  have htop : ∀ o ∈ (Expr.ofOperations n ops).top?, bar ≤ o.precedence := by
    intro o ho
    obtain ⟨m, hm⟩ := Expr.exists_mem_operations ho
    rw [Expr.operations_ofOperations] at hm
    exact hops _ hm
  refine climb_graft (Expr.wellGrouped_ofOperations n ops) htop ?_ hstream ?_ left passed
  · rw [Expr.operations_ofOperations, hhead]
  · intro op hop o ho
    have := hahead op hop
    have := htop o ho
    omega

/-- An expression is an operand, on which the operators behind it are climbed. -/
theorem expression_eq (p : Parser) :
    expression p = match primary p with
      | .error f p1 => .error f p1
      | .ok operand p1 => climb operand 0 p1 := by
  change EStateM.bind primary _ p = _
  unfold EStateM.bind
  cases primary p <;> rfl

/-- A number and a chain of operations behind it are climbed to the well-grouped tree. -/
theorem expression_of_chain {t : Token} {n : Int} {ops : List (Operator × Int)}
    {head : List Token} {stream : List Pull} (ht : t.lexeme = .number n)
    (hhead : head.map Token.lexeme = written ops) (hstream : Pullable stream)
    (hahead : operatorAhead? stream = none) (passed : List Token) :
    expression (facing passed (.token t :: (head.map .token ++ stream)))
      = climb (Expr.ofOperations n ops) 0 (facing (passed ++ t :: head) stream) := by
  have hops : ∀ o ∈ ops, (0 : Int) ≤ o.1.precedence := fun o _ => Int.natCast_nonneg _
  have hclimb := climb_of_chain hhead hops hstream (by simp [hahead]) n (.constant n)
    (passed ++ [t])
  have hgraft := Expr.graft_first (Expr.ofOperations n ops)
  rw [Expr.first_ofOperations] at hgraft
  rw [expression_eq, primary_facing_number ht (pullable_tokens head hstream)]
  dsimp only
  rw [hclimb, hgraft, List.append_assoc, List.singleton_append]

/-- Tokens that read as a well-grouped tree, with no operator behind them, are that expression. -/
theorem expression_of_inorder {e : Expr} {tokens : List Token} {stream : List Pull}
    (htokens : tokens.map Token.lexeme = e.inorder) (hgrouped : e.WellGrouped)
    (hstream : Pullable stream) (h : operatorAhead? stream = none) :
    expression (facing [] (tokens.map .token ++ stream))
      = match (facing tokens stream).lookahead with
        | .held err => .error (.error (.token err)) (facing tokens stream)
        | _ => .ok e (facing tokens stream) := by
  rw [Expr.inorder_eq] at htokens
  obtain ⟨t, head, rfl, ht, hhead⟩ := List.map_eq_cons_iff.mp htokens
  rw [List.map_cons, List.cons_append, expression_of_chain ht hhead hstream h, climb_eq,
    List.nil_append, Expr.ofOperations_operations hgrouped]
  by_cases hheld : ∃ err, (facing (t :: head) stream).lookahead = .held err
  · obtain ⟨err, herr⟩ := hheld
    rw [operation?_of_held herr, herr]
  · rw [operation?_of_loose (fun err herr => hheld ⟨err, herr⟩) (by simp [h])]
    dsimp only
    split
    next err herr => exact absurd ⟨err, herr⟩ hheld
    next => rfl

/-! ## Lists of tokens -/

theorem facing_tokens (passed rest : List Token) :
    facing passed (rest.map .token)
      = { stream := rest.tail.map .token, lookahead := .ofTokens rest, lastEnd := endOf passed,
          pulled := passed.length + 1 } := by
  cases rest <;> rfl

/--
**An expression parser reads the longest chain of numbers and operators in front of it and groups
it as the precedences say.** Behind the chain stands no operator. The tree reads as the tokens that
were consumed, it is well grouped and the only such tree, and the token behind the chain is the one
that the parser sees ahead.
-/
theorem expression_ofTokens {n : Int} {ops : List (Operator × Int)} {chain rest : List Token}
    (hchain : chain.map Token.lexeme = .number n :: written ops)
    (hrest : ∀ t ∈ rest.head?, Operator.ofKind? t.lexeme.kind = none) :
    ∃ e : Expr,
      expression (ofTokens (chain ++ rest))
        = .ok e
          { stream := rest.tail.map .token
            lookahead := .ofTokens rest
            lastEnd := endOf chain
            pulled := chain.length + 1 } ∧
      e.inorder = chain.map Token.lexeme ∧ e.WellGrouped ∧
      ∀ e' : Expr, e'.inorder = chain.map Token.lexeme → e'.WellGrouped → e' = e := by
  obtain ⟨t, head, rfl, ht, hhead⟩ := List.map_eq_cons_iff.mp hchain
  have hinorder : (Expr.ofOperations n ops).inorder = (t :: head).map Token.lexeme := by
    rw [hchain, Expr.inorder_eq, Expr.first_ofOperations, Expr.operations_ofOperations]
  have hgrouped := Expr.wellGrouped_ofOperations n ops
  refine ⟨Expr.ofOperations n ops, ?_, hinorder, hgrouped, ?_⟩
  · have hstream : Pullable (rest.map .token) := by
      cases rest with
      | nil => trivial
      | cons u rest => trivial
    have hahead : operatorAhead? (rest.map .token) = none := by
      cases rest with
      | nil => rfl
      | cons u rest => exact hrest u rfl
    have hstart : ofTokens (t :: head ++ rest)
        = facing [] ((t :: head).map .token ++ rest.map .token) := by
      simp [ofTokens, facing, endOf]
    rw [hstart, expression_of_inorder hinorder.symm hgrouped hstream hahead, facing_tokens]
    cases rest with
    | nil => rfl
    | cons u rest => rfl
  · intro e' he' hgrouped'
    exact hgrouped'.eq_of_inorder hgrouped (he'.trans hinorder.symm)

/-- The tokens of `1 - 2 * 3 )`: the parenthesis is left over, and the product is the right side. -/
theorem expression_ofTokens_product :
    let chain : List Token :=
      [⟨.ofLength 0 1, .number 1⟩, ⟨.ofLength 2 1, .symbol .minus⟩, ⟨.ofLength 4 1, .number 2⟩,
        ⟨.ofLength 6 1, .symbol .star⟩, ⟨.ofLength 8 1, .number 3⟩]
    let rest : List Token := [⟨.ofLength 10 1, .symbol .rightParen⟩]
    chain.map Token.lexeme = .number 1 :: written [(.subtract, 2), (.multiply, 3)] ∧
      (∀ t ∈ rest.head?, Operator.ofKind? t.lexeme.kind = none) ∧
      expression (ofTokens (chain ++ rest))
        = .ok (.binary .subtract (.constant 1) (.binary .multiply (.constant 2) (.constant 3)))
          { stream := [], lookahead := .ofTokens rest, lastEnd := 9, pulled := 6 } := by
  intro chain rest
  have hchain : chain.map Token.lexeme
      = .number 1 :: written [(.subtract, 2), (.multiply, 3)] := rfl
  have hrest : ∀ t ∈ rest.head?, Operator.ofKind? t.lexeme.kind = none := by decide
  obtain ⟨e, hparse, -, -, hunique⟩ := expression_ofTokens hchain hrest
  rw [← hunique (.binary .subtract (.constant 1) (.binary .multiply (.constant 2) (.constant 3)))
    rfl (by decide)] at hparse
  exact ⟨hchain, hrest, hparse⟩

end Parser

end Arith
