import Mathlib
import Arith.Proofs.Expr.Verdict

/-!
# Climbing on a list of tokens

A parser on a list of tokens stands between two of them (`between`). Climbing takes it over the
longest chain of operations in front of it that all bind tight enough (`LongestChain`), and groups
them behind the left side, which stays whole whatever it is made of (`Expr.Groups`). If the token
behind the chain is an operator that binds tight enough, then its operand is missing, and climbing
fails with that operator consumed. There is no third case (`climb_between`).
-/

namespace Arith.Parser

open Arith.Expr (written Groups)

/-! ## Parsers on lists of tokens -/

/-- A parser on a list of tokens that has passed some of them, and has the others in front of it. -/
def between (passed rest : List Token) : Parser where
  stream := rest.tail.map .token
  lookahead := .ofTokens rest
  lastEnd := endOf passed
  pulled := passed.length + 1

theorem facing_eq_between (passed rest : List Token) :
    facing passed (rest.map .token) = between passed rest := facing_tokens passed rest

theorem ofTokens_eq_between (tokens : List Token) : ofTokens tokens = between [] tokens :=
  facing_eq_between [] tokens

theorem pullable_map (tokens : List Token) : Pullable (tokens.map .token) := by
  cases tokens with
  | nil => trivial
  | cons t tokens => trivial

theorem noNumber_map {tokens : List Token} (h : ∀ t ∈ tokens.head?, t.lexeme.kind ≠ .number) :
    NoNumber (tokens.map .token) := by
  intro t rest hstream
  cases tokens with
  | nil => cases hstream
  | cons u tokens =>
    cases hstream
    exact h t rfl

/-! ## The longest chain -/

/--
The longest chain of operations at the front of some tokens that all bind at least as tight as
`bar`, with the tokens behind it.
-/
structure LongestChain (bar : Int) (tokens : List Token) (ops : List (Operator × Int))
    (chain rest : List Token) : Prop where
  tokens_eq : tokens = chain ++ rest
  reads : chain.map Token.lexeme = written ops
  tight : ∀ o ∈ ops, bar ≤ o.1.precedence
  longest : ∀ (chain' : List Token) (ops' : List (Operator × Int)), chain' <+: tokens →
    chain'.map Token.lexeme = written ops' → (∀ o ∈ ops', bar ≤ o.1.precedence) →
    chain'.length ≤ chain.length

/-- A chain goes on as long as operations can be read that bind tight enough. -/
theorem exists_blocked (bar : Int) : ∀ tokens : List Token,
    ∃ (ops : List (Operator × Int)) (chain rest : List Token), tokens = chain ++ rest ∧
      chain.map Token.lexeme = written ops ∧ (∀ o ∈ ops, bar ≤ o.1.precedence) ∧
      Blocked bar (rest.map .token)
  | [] => ⟨[], [], [], rfl, rfl, nofun, fun _ _ _ _ _ h => nomatch h⟩
  | [t] => ⟨[], [], [t], rfl, rfl, nofun, fun _ _ _ _ _ h => nomatch h⟩
  | t :: u :: tokens => by
    by_cases h : ∃ (op : Operator) (n : Int),
        t.lexeme = .symbol op.symbol ∧ u.lexeme = .number n ∧ bar ≤ op.precedence
    · obtain ⟨op, n, ht, hu, hop⟩ := h
      obtain ⟨ops, chain, rest, rfl, hreads, htight, hblocked⟩ := exists_blocked bar tokens
      refine ⟨(op, n) :: ops, t :: u :: chain, rest, rfl, by simp [ht, hu, hreads], ?_, hblocked⟩
      exact List.forall_mem_cons.2 ⟨hop, htight⟩
    · refine ⟨[], [], t :: u :: tokens, rfl, rfl, nofun, ?_⟩
      intro t' u' rest op n hstream _ ht hu
      cases hstream
      exact Int.not_le.1 fun hop => h ⟨op, n, ht, hu, hop⟩

/-- No other chain of operations that bind tight enough is longer. -/
theorem length_le_of_blocked {bar : Int} {ops ops' : List (Operator × Int)}
    {chain chain' rest : List Token} (hfront : chain' <+: chain ++ rest)
    (hreads : chain.map Token.lexeme = written ops)
    (hreads' : chain'.map Token.lexeme = written ops')
    (htight' : ∀ o ∈ ops', bar ≤ o.1.precedence) (hblocked : Blocked bar (rest.map .token)) :
    chain'.length ≤ chain.length := by
  induction ops' generalizing ops chain chain' with
  | nil =>
    obtain rfl : chain' = [] := List.map_eq_nil_iff.mp hreads'
    exact Nat.zero_le _
  | cons o ops' ih =>
    obtain ⟨t, u, chain', rfl, ht, hu, hreads'⟩ := Expr.exists_eq_cons_of_written hreads'
    cases ops with
    | nil =>
      obtain rfl : chain = [] := List.map_eq_nil_iff.mp hreads
      obtain ⟨more, rfl⟩ := hfront
      -- the first of its operations could be read
      have := hblocked t u _ o.1 o.2 rfl (pullable_map _) ht hu
      have := htight' o List.mem_cons_self
      omega
    | cons p ops =>
      obtain ⟨t', u', chain, rfl, -, -, hreads⟩ := Expr.exists_eq_cons_of_written hreads
      rw [List.cons_append, List.cons_append, List.cons_prefix_cons, List.cons_prefix_cons]
        at hfront
      obtain ⟨-, -, hfront⟩ := hfront
      have := ih hfront hreads hreads' fun o ho => htight' o (List.mem_cons_of_mem _ ho)
      simp only [List.length_cons]
      omega

theorem exists_longestChain (bar : Int) (tokens : List Token) :
    ∃ ops chain rest, LongestChain bar tokens ops chain rest := by
  obtain ⟨ops, chain, rest, rfl, hreads, htight, hblocked⟩ := exists_blocked bar tokens
  exact ⟨ops, chain, rest, rfl, hreads, htight, fun chain' ops' hfront hreads' htight' =>
    length_le_of_blocked hfront hreads hreads' htight' hblocked⟩

/-- No operator that binds at least as tight as `bar` is the first of some tokens. -/
def Loose (bar : Int) (tokens : List Token) : Prop :=
  ∀ op ∈ operatorAhead? (tokens.map .token), (op.precedence : Int) < bar

theorem loose_or_exists (bar : Int) (tokens : List Token) :
    Loose bar tokens ∨ ∃ (t : Token) (behind : List Token) (op : Operator),
      tokens = t :: behind ∧ t.lexeme = .symbol op.symbol ∧ bar ≤ op.precedence := by
  by_cases h : Loose bar tokens
  · exact Or.inl h
  · obtain ⟨op, hop, hbar⟩ :
        ∃ op ∈ operatorAhead? (tokens.map .token), bar ≤ op.precedence := by
      simpa [Loose] using h
    cases tokens with
    | nil => cases hop
    | cons t behind =>
      exact Or.inr ⟨t, behind, op, rfl, Operator.eq_symbol_of_ofKind? hop, hbar⟩

variable {bar : Int} {tokens chain rest behind : List Token} {ops : List (Operator × Int)}
  {t : Token} {op : Operator}

theorem LongestChain.length_eq (h : LongestChain bar tokens ops chain rest) :
    chain.length = 2 * ops.length := by
  have hlength := congrArg List.length h.reads
  rwa [List.length_map, Expr.length_written] at hlength

/-- An operator that binds tight enough has no operand behind the longest chain. -/
theorem LongestChain.no_operand (h : LongestChain bar tokens ops chain (t :: behind))
    (ht : t.lexeme = .symbol op.symbol) (hbar : bar ≤ op.precedence) :
    ∀ u ∈ behind.head?, u.lexeme.kind ≠ .number := by
  intro u hu hkind
  obtain ⟨more, rfl⟩ := List.head?_eq_some_iff.1 hu
  obtain ⟨n, hn⟩ := exists_eq_number hkind
  -- with its operand, it would make the chain longer
  have hle := h.longest (chain ++ [t, u]) (ops ++ [(op, n)]) ⟨more, by simp [h.tokens_eq]⟩
    (by simp [h.reads, ht, hn]) ?_
  · simp only [List.length_append, List.length_cons] at hle
    omega
  · intro o ho
    rcases List.mem_append.1 ho with ho | ho
    · exact h.tight o ho
    · rw [List.mem_singleton.1 ho]
      exact hbar

/-! ## What climbing does -/

/-- Where no operator ahead binds tight enough, climbing returns its left side. -/
theorem climb_of_loose (h : Loose bar rest) (left : Expr) (passed : List Token) :
    climb left bar (between passed rest) = .ok left (between passed rest) := by
  have hheld : ∀ e, (facing passed (rest.map .token)).lookahead ≠ .held e := by
    rw [facing_eq_between]
    cases rest <;> nofun
  rw [← facing_eq_between, climb_eq, operation?_of_loose hheld h]

/-- Climbing groups the longest chain behind its left side. -/
theorem LongestChain.climb_eq_ok (h : LongestChain bar tokens ops chain rest)
    (hloose : Loose bar rest) (left : Expr) (passed : List Token) :
    climb left bar (between passed tokens)
      = .ok ((Expr.ofOperations 0 ops).graft left) (between (passed ++ chain) rest) := by
  have hchain := climb_of_chain h.reads h.tight (pullable_map rest) hloose 0 left passed
  rw [← facing_eq_between, h.tokens_eq, List.map_append, hchain, facing_eq_between,
    climb_of_loose hloose]

/-- Behind the longest chain, climbing consumes an operator that binds tight enough, and fails. -/
theorem LongestChain.climb_eq_error (h : LongestChain bar tokens ops chain (t :: behind))
    (ht : t.lexeme = .symbol op.symbol) (hbar : bar ≤ op.precedence) (left : Expr)
    (passed : List Token) :
    climb left bar (between passed tokens)
      = .error (.error (missingOperand (passed ++ chain ++ [t]) (behind.map .token)))
          (between (passed ++ chain ++ [t]) behind) := by
  have hnumber := noNumber_map (h.no_operand ht hbar)
  rw [← facing_eq_between, ← facing_eq_between, h.tokens_eq, List.map_append, List.map_cons]
  exact climb_of_failing h.reads h.tight ht hbar
    (fun _ hbar' => operation?_of_noNumber hnumber (pullable_map behind) ht hbar' _) left

theorem kind_missingOperand (passed rest : List Token) :
    (missingOperand passed (rest.map .token)).kind = .unexpectedEnd ∨
      (missingOperand passed (rest.map .token)).kind = .unexpectedToken := by
  cases rest with
  | nil => exact Or.inl rfl
  | cons t rest => exact Or.inr rfl

/--
**Climbing groups the longest chain of operations that bind tight enough behind its left side**, and
consumes just the tokens of the chain, if no operator that binds tight enough comes next. Otherwise
that operator is consumed too, and what stands in the place of its operand is refused.
-/
theorem climb_between (left : Expr) (bar : Int) (passed tokens : List Token) :
    ∃ (ops : List (Operator × Int)) (chain rest : List Token),
      LongestChain bar tokens ops chain rest ∧ chain.length = 2 * ops.length ∧
      (Loose bar rest ∧
          (∃ e, climb left bar (between passed tokens) = .ok e (between (passed ++ chain) rest) ∧
            Groups left ops e ∧ ∀ e', Groups left ops e' → e' = e) ∨
        ∃ (t : Token) (behind : List Token) (op : Operator), rest = t :: behind ∧
          t.lexeme = .symbol op.symbol ∧ bar ≤ op.precedence ∧
          (∀ u ∈ behind.head?, u.lexeme.kind ≠ .number) ∧
          ∃ err, climb left bar (between passed tokens)
              = .error (.error err) (between (passed ++ chain ++ [t]) behind) ∧
            err = missingOperand (passed ++ chain ++ [t]) (behind.map .token) ∧
            (err.kind = .unexpectedEnd ∨ err.kind = .unexpectedToken)) := by
  obtain ⟨ops, chain, rest, h⟩ := exists_longestChain bar tokens
  refine ⟨ops, chain, rest, h, h.length_eq, ?_⟩
  rcases loose_or_exists bar rest with hloose | ⟨t, behind, op, rfl, ht, hbar⟩
  · exact Or.inl ⟨hloose, _, h.climb_eq_ok hloose left passed, Expr.groups_ofOperations left ops 0,
      fun e' he' => he'.eq_graft 0⟩
  · exact Or.inr ⟨t, behind, op, rfl, ht, hbar, h.no_operand ht hbar, _,
      h.climb_eq_error ht hbar left passed, rfl, kind_missingOperand _ behind⟩

/-- In front of `* 3 + 4`, a difference is the whole left factor of the product. -/
theorem climb_between_product :
    let left := Expr.binary .subtract (.constant 1) (.constant 2)
    let product := Expr.binary .multiply left (.constant 3)
    let tokens : List Token :=
      [⟨.ofLength 0 1, .symbol .star⟩, ⟨.ofLength 2 1, .number 3⟩, ⟨.ofLength 4 1, .symbol .plus⟩,
        ⟨.ofLength 6 1, .number 4⟩]
    climb left 11 (between [] tokens)
        = .ok product (between (tokens.take 2) (tokens.drop 2)) ∧
      Groups left [(.multiply, 3)] product ∧
      ∀ e', Groups left [(.multiply, 3)] e' → e' = product := by
  intro left product tokens
  have hparse : climb left 11 (between [] tokens)
      = .ok product (between (tokens.take 2) (tokens.drop 2)) := by cbv
  obtain ⟨ops, chain, rest, h, -, ⟨-, e, hclimb, hgroups, hunique⟩ |
    ⟨t, behind, op, -, -, -, -, err, hclimb, -⟩⟩ := climb_between left 11 [] tokens
  · rw [hparse, EStateM.Result.ok.injEq, between, between, mk.injEq] at hclimb
    obtain ⟨rfl, -, -, -, hpulled⟩ := hclimb
    have hchain : chain = tokens.take 2 := by
      have hlength : chain.length = 2 := (Nat.succ.inj hpulled).symm
      rw [h.tokens_eq, ← hlength, List.take_left]
    obtain rfl : ops = [(.multiply, 3)] := by
      refine Expr.written_injective ?_
      rw [← h.reads, hchain]
      rfl
    exact ⟨hparse, hgroups, hunique⟩
  · rw [hparse] at hclimb
    cases hclimb

end Arith.Parser
