import Arith.Expr
import Mathlib.Data.List.Induction

/-!
# Grouping by precedence

Read from left to right, an expression is an operand and the operations that follow it. Of all the
trees with the same reading, one groups as the precedences say: operators that bind tighter stand
below those that bind looser, and operators that bind alike group to the left (`WellGrouped`).

`ofOperations` builds that tree. It puts one operation after the other at the right edge of what
was built before: above the operators that bind at least as tight, below the looser ones.

* `wellGrouped_ofOperations`, `operations_ofOperations` — such a tree exists for every reading
* `ofOperations_operations` — there is no other
-/

namespace Arith

namespace Operator

/-- Every operator is that of its kind of token. -/
@[simp] theorem ofKind?_symbol (op : Operator) : ofKind? (.symbol op.symbol) = some op :=
  ofSymbol?_symbol op

/-- Only the symbol of an operator stands for it. -/
theorem eq_symbol_of_ofKind? {l : Lexeme} {op : Operator} (h : ofKind? l.kind = some op) :
    l = .symbol op.symbol := by
  cases l with
  | symbol s =>
    have hs := List.find?_some (h : all.find? (fun o => o.symbol == s) = some op)
    rw [eq_of_beq hs]
  | _ => cases h

end Operator

namespace Expr

/-! ## Reading a tree from left to right -/

/-- The lexemes of an expression from left to right. -/
def inorder : Expr → List Lexeme
  | constant n => [.number n]
  | binary op left right => left.inorder ++ .symbol op.symbol :: right.inorder

/-- The first operand of an expression. -/
def first : Expr → Int
  | constant n => n
  | binary _ left _ => left.first

/-- The operators of an expression from left to right, each with the operand behind it. -/
def operations : Expr → List (Operator × Int)
  | constant _ => []
  | binary op left right => left.operations ++ (op, right.first) :: right.operations

/-- The lexemes of a chain of operations. -/
def written (ops : List (Operator × Int)) : List Lexeme :=
  ops.flatMap fun o => [.symbol o.1.symbol, .number o.2]

@[simp] theorem written_nil : written [] = [] := rfl

@[simp] theorem written_cons (op : Operator) (n : Int) (ops : List (Operator × Int)) :
    written ((op, n) :: ops) = .symbol op.symbol :: .number n :: written ops := rfl

@[simp] theorem written_append (ops ops' : List (Operator × Int)) :
    written (ops ++ ops') = written ops ++ written ops' := List.flatMap_append

@[simp] theorem length_written (ops : List (Operator × Int)) :
    (written ops).length = 2 * ops.length := by
  induction ops with
  | nil => rfl
  | cons o ops ih =>
    obtain ⟨op, n⟩ := o
    rw [written_cons, List.length_cons, List.length_cons, ih, List.length_cons]
    omega

/-- A chain of operations is known by its lexemes. -/
theorem written_injective {ops ops' : List (Operator × Int)} (h : written ops = written ops') :
    ops = ops' := by
  induction ops generalizing ops' with
  | nil =>
    cases ops' with
    | nil => rfl
    | cons o ops' => cases h
  | cons o ops ih =>
    obtain ⟨op, n⟩ := o
    cases ops' with
    | nil => cases h
    | cons o' ops' =>
      obtain ⟨op', n'⟩ := o'
      simp only [written_cons, List.cons.injEq, Lexeme.symbol.injEq, Lexeme.number.injEq] at h
      obtain ⟨hop, hn, hops⟩ := h
      have hsome : some op = some op' := by
        rw [← Operator.ofSymbol?_symbol op, hop, Operator.ofSymbol?_symbol]
      rw [Option.some.inj hsome, hn, ih hops]

/-- Tokens that read as a chain of operations begin with an operator and a number. -/
theorem exists_eq_cons_of_written {tokens : List Token} {op : Operator} {n : Int}
    {ops : List (Operator × Int)} (h : tokens.map Token.lexeme = written ((op, n) :: ops)) :
    ∃ t u rest, tokens = t :: u :: rest ∧ t.lexeme = .symbol op.symbol ∧ u.lexeme = .number n ∧
      rest.map Token.lexeme = written ops := by
  obtain ⟨t, rest, rfl, ht, hrest⟩ := List.map_eq_cons_iff.mp h
  obtain ⟨u, rest, rfl, hu, hrest⟩ := List.map_eq_cons_iff.mp hrest
  exact ⟨t, u, rest, rfl, ht, hu, hrest⟩

/-- The lexemes of an expression are those of its first operand and of its operations. -/
theorem inorder_eq (e : Expr) : e.inorder = .number e.first :: written e.operations := by
  induction e with
  | constant n => rfl
  | binary op left right ihl ihr => simp [inorder, first, operations, ihl, ihr]

/-! ## Well-grouped trees -/

/-- The outermost operator of an expression, if it has one. -/
def top? : Expr → Option Operator
  | constant _ => none
  | binary op _ _ => some op

/-- The outermost operator is one of the operators. -/
theorem exists_mem_operations {e : Expr} {op : Operator} (h : op ∈ e.top?) :
    ∃ n, (op, n) ∈ e.operations := by
  cases e with
  | constant n => cases h
  | binary top left right =>
    obtain rfl : top = op := Option.some.inj h
    exact ⟨right.first, by simp [operations]⟩

/--
An expression is grouped as the precedences say: what stands left of an operator binds at least as
tight as it, and what stands right of it binds tighter.
-/
def WellGrouped : Expr → Prop
  | constant _ => True
  | binary op left right =>
    left.WellGrouped ∧ right.WellGrouped ∧
      (∀ o ∈ left.top?, op.precedence ≤ o.precedence) ∧
      (∀ o ∈ right.top?, op.precedence < o.precedence)

instance decidableWellGrouped : (e : Expr) → Decidable e.WellGrouped
  | constant _ => .isTrue trivial
  | binary _ left right =>
    have := decidableWellGrouped left
    have := decidableWellGrouped right
    inferInstanceAs (Decidable (_ ∧ _ ∧ _ ∧ _))

/-- In a well-grouped expression, every operator binds at least as tight as the outermost one. -/
theorem WellGrouped.top_le {e : Expr} (h : e.WellGrouped) {top : Operator}
    (htop : top ∈ e.top?) : ∀ o ∈ e.operations, top.precedence ≤ o.1.precedence := by
  induction e generalizing top with
  | constant n => cases htop
  | binary op left right ihl ihr =>
    obtain ⟨hl, hr, hleft, hright⟩ := h
    obtain rfl : op = top := Option.some.inj htop
    intro o ho
    have bound {e : Expr} (ih : ∀ {t : Operator}, t ∈ e.top? → ∀ o ∈ e.operations,
        t.precedence ≤ o.1.precedence) (he : ∀ t ∈ e.top?, op.precedence ≤ t.precedence)
        (hoe : o ∈ e.operations) : op.precedence ≤ o.1.precedence := by
      cases e with
      | constant n => cases hoe
      | binary t l r => exact Nat.le_trans (he t rfl) (ih rfl o hoe)
    simp only [operations, List.mem_append, List.mem_cons] at ho
    rcases ho with ho | rfl | ho
    · exact bound (ihl hl) hleft ho
    · exact Nat.le_refl _
    · exact bound (ihr hr) (fun t ht => Nat.le_of_lt (hright t ht)) ho

/-! ## Building the tree -/

/-- Puts an operation at the right edge of an expression. -/
def extend : Expr → Operator × Int → Expr
  | constant n, (op, m) => binary op (constant n) (constant m)
  | binary top left right, (op, m) =>
    if top.precedence < op.precedence then binary top left (right.extend (op, m))
    else binary op (binary top left right) (constant m)

/-- The expression with the given reading that is grouped as the precedences say. -/
def ofOperations (first : Int) (ops : List (Operator × Int)) : Expr :=
  ops.foldl extend (constant first)

/-- An operation goes above an expression that binds at least as tight. -/
theorem extend_of_le {e : Expr} {op : Operator} (n : Int)
    (h : ∀ o ∈ e.top?, op.precedence ≤ o.precedence) :
    e.extend (op, n) = binary op e (constant n) := by
  cases e with
  | constant m => rfl
  | binary top left right =>
    have := h top rfl
    rw [extend, if_neg (by omega)]

@[simp] theorem first_extend (e : Expr) (o : Operator × Int) : (e.extend o).first = e.first := by
  induction e with
  | constant n => rfl
  | binary top left right ihl ihr =>
    unfold extend
    split <;> rfl

@[simp] theorem operations_extend (e : Expr) (o : Operator × Int) :
    (e.extend o).operations = e.operations ++ [o] := by
  induction e with
  | constant n => rfl
  | binary top left right ihl ihr =>
    unfold extend
    split
    · simp [operations, ihr]
    · simp [operations, first]

/-- The outermost operator after an operation was put at the right edge. -/
theorem top?_extend (e : Expr) (op : Operator) (n : Int) :
    (e.extend (op, n)).top? = some op ∨
      ∃ top ∈ e.top?, top.precedence < op.precedence ∧ (e.extend (op, n)).top? = some top := by
  cases e with
  | constant m => exact Or.inl rfl
  | binary top left right =>
    unfold extend
    split
    next h => exact Or.inr ⟨top, rfl, h, rfl⟩
    next => exact Or.inl rfl

theorem WellGrouped.extend {e : Expr} (h : e.WellGrouped) (o : Operator × Int) :
    (e.extend o).WellGrouped := by
  obtain ⟨op, m⟩ := o
  induction e with
  | constant n => simp [Expr.extend, WellGrouped, top?]
  | binary top left right ihl ihr =>
    obtain ⟨hl, hr, hleft, hright⟩ := h
    unfold Expr.extend
    split
    next hlt =>
      refine ⟨hl, ihr hr, hleft, ?_⟩
      intro o ho
      rcases top?_extend right op m with heq | ⟨t, ht, -, heq⟩
      · rw [heq] at ho
        cases ho
        exact hlt
      · rw [heq] at ho
        cases ho
        exact hright _ ht
    next hle =>
      refine ⟨⟨hl, hr, hleft, hright⟩, trivial, ?_, by simp [top?]⟩
      intro o ho
      cases ho
      exact Nat.le_of_not_lt hle

@[simp] theorem ofOperations_concat (n : Int) (ops : List (Operator × Int)) (o : Operator × Int) :
    ofOperations n (ops ++ [o]) = (ofOperations n ops).extend o := by
  rw [ofOperations, List.foldl_append]
  rfl

theorem wellGrouped_ofOperations (n : Int) (ops : List (Operator × Int)) :
    (ofOperations n ops).WellGrouped := by
  induction ops using List.reverseRecOn with
  | nil => trivial
  | append_singleton ops o ih =>
    rw [ofOperations_concat]
    exact ih.extend o

@[simp] theorem first_ofOperations (n : Int) (ops : List (Operator × Int)) :
    (ofOperations n ops).first = n := by
  induction ops using List.reverseRecOn with
  | nil => rfl
  | append_singleton ops o ih => rw [ofOperations_concat, first_extend, ih]

@[simp] theorem operations_ofOperations (n : Int) (ops : List (Operator × Int)) :
    (ofOperations n ops).operations = ops := by
  induction ops using List.reverseRecOn with
  | nil => rfl
  | append_singleton ops o ih => rw [ofOperations_concat, operations_extend, ih]

/-- Operations that bind tighter than an operator go below it, into its right operand. -/
theorem foldl_extend_binary {op : Operator} {ops : List (Operator × Int)}
    (h : ∀ o ∈ ops, op.precedence < o.1.precedence) (left right : Expr) :
    ops.foldl Expr.extend (binary op left right)
      = binary op left (ops.foldl Expr.extend right) := by
  induction ops generalizing right with
  | nil => rfl
  | cons o ops ih =>
    obtain ⟨op', n⟩ := o
    have hlt : op.precedence < op'.precedence := h (op', n) List.mem_cons_self
    rw [List.foldl_cons, List.foldl_cons, Expr.extend, if_pos hlt]
    exact ih (fun o ho => h o (List.mem_cons_of_mem _ ho)) _

/-- **A well-grouped expression is the one that its reading builds.** -/
theorem ofOperations_operations {e : Expr} (h : e.WellGrouped) :
    ofOperations e.first e.operations = e := by
  induction e with
  | constant n => rfl
  | binary op left right ihl ihr =>
    obtain ⟨hl, hr, hleft, hright⟩ := h
    have htighter : ∀ o ∈ right.operations, op.precedence < o.1.precedence := by
      intro o ho
      cases right with
      | constant n => cases ho
      | binary top l r => exact Nat.lt_of_lt_of_le (hright top rfl) (hr.top_le rfl o ho)
    calc ofOperations (binary op left right).first (binary op left right).operations
        = right.operations.foldl Expr.extend
            ((ofOperations left.first left.operations).extend (op, right.first)) := by
          simp only [ofOperations, first, operations, List.foldl_append, List.foldl_cons]
      _ = right.operations.foldl Expr.extend (binary op left (constant right.first)) := by
          rw [ihl hl, extend_of_le _ hleft]
      _ = binary op left (ofOperations right.first right.operations) :=
          foldl_extend_binary htighter left _
      _ = binary op left right := by rw [ihr hr]

/-- Two well-grouped expressions with the same reading are the same. -/
theorem WellGrouped.eq_of_inorder {e e' : Expr} (h : e.WellGrouped) (h' : e'.WellGrouped)
    (heq : e.inorder = e'.inorder) : e = e' := by
  rw [inorder_eq, inorder_eq, List.cons.injEq, Lexeme.number.injEq] at heq
  rw [← ofOperations_operations h, ← ofOperations_operations h', heq.1, written_injective heq.2]

/-! ## Another first operand -/

/-- The expression with its first operand replaced by an expression, which stays whole. -/
def graft : Expr → Expr → Expr
  | constant _, left => left
  | binary op l r, left => binary op (l.graft left) r

@[simp] theorem graft_first (e : Expr) : e.graft (constant e.first) = e := by
  induction e with
  | constant n => rfl
  | binary op l r ihl ihr => rw [graft, first, ihl]

@[simp] theorem first_graft (e left : Expr) : (e.graft left).first = left.first := by
  induction e with
  | constant n => rfl
  | binary op l r ihl ihr => rw [graft, first, ihl]

@[simp] theorem operations_graft (e left : Expr) :
    (e.graft left).operations = left.operations ++ e.operations := by
  induction e with
  | constant n => simp [graft, operations]
  | binary op l r ihl ihr => simp [graft, operations, ihl]

/-- A left side stands in front of the operations. -/
theorem inorder_graft (e left : Expr) :
    (e.graft left).inorder = left.inorder ++ written e.operations := by
  rw [inorder_eq, first_graft, operations_graft, written_append, inorder_eq left, List.cons_append]

/-- Only the last replacement of the first operand counts. -/
theorem graft_graft (e left left' : Expr) :
    (e.graft left).graft left' = e.graft (left.graft left') := by
  induction e with
  | constant n => rfl
  | binary op l r ihl ihr => rw [graft, graft, graft, ihl]

theorem WellGrouped.graft_constant {e : Expr} (h : e.WellGrouped) (n : Int) :
    (e.graft (constant n)).WellGrouped := by
  induction e with
  | constant m => trivial
  | binary op l r ihl ihr =>
    obtain ⟨hl, hr, hleft, hright⟩ := h
    refine ⟨ihl hl, hr, ?_, hright⟩
    cases l with
    | constant m => simp [graft, top?]
    | binary top l' r' => exact hleft

/--
A tree groups operations behind a left side as the precedences say, and the left side is one
operand, whatever it is made of: in some well-grouped tree over the operations it takes the place of
the first operand.
-/
def Groups (left : Expr) (ops : List (Operator × Int)) (e : Expr) : Prop :=
  ∃ shape : Expr, shape.WellGrouped ∧ shape.operations = ops ∧ e = shape.graft left

theorem groups_ofOperations (left : Expr) (ops : List (Operator × Int)) (n : Int) :
    Groups left ops ((ofOperations n ops).graft left) :=
  ⟨ofOperations n ops, wellGrouped_ofOperations n ops, operations_ofOperations n ops, rfl⟩

/-- **There is one tree that groups some operations behind a left side.** -/
theorem Groups.eq_graft {left e : Expr} {ops : List (Operator × Int)} (h : Groups left ops e)
    (n : Int) : e = (ofOperations n ops).graft left := by
  obtain ⟨shape, hgrouped, rfl, rfl⟩ := h
  -- the first operand of the tree plays no part
  have hshape := ofOperations_operations (hgrouped.graft_constant n)
  rw [first_graft, operations_graft, first, operations, List.nil_append] at hshape
  rw [hshape, graft_graft]
  rfl

end Expr

end Arith
