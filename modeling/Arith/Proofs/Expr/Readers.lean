import Arith.Expr.Outline
import Arith.Expr.Parser
import Arith.Proofs.Expr.Items
import Arith.Proofs.Text.Line

/-!
# Reading expressions back

An S-expression is read from its items. The reader stacks what it meets, and puts an operation
together where a list is closed (`shift`). An outline is read from its last line to its first: the
line of an integer adds an expression, and the line of an operation takes its two sides
(`place`). So its indentation is not needed.

Both readers work behind whatever was read before, which carries the inductions
(`foldlM_items`, `foldrM_outlineFrom`). So each of the renderings tells expressions apart.
-/

namespace Arith

open Sexpr
open Numeral (Literal)

/-! ## S-expressions -/

namespace Sexpr

/-- What was read and is not part of a finished list yet. -/
inductive Entry where
  | opening
  | operator (op : Operator)
  | operand (e : Expr)
  deriving DecidableEq, Repr

/-- The operator or the integer that an atom is. -/
def Entry.ofAtom? (text : List Char) : Option Entry :=
  match Operator.ofText? text with
  | some op => some (.operator op)
  | none => (Literal.ofText? text).map fun l => .operand (.constant l.value)

/-- Puts an item on the stack. The end of a list takes its operator and its sides off. -/
def shift (stack : List Entry) : Item → Option (List Entry)
  | .opening => some (.opening :: stack)
  | .atom text => (Entry.ofAtom? text).map (· :: stack)
  | .closing =>
    match stack with
    | .operand right :: .operand left :: .operator op :: .opening :: stack =>
      some (.operand (.binary op left right) :: stack)
    | _ => none

end Sexpr

/-- The expression that a text of one S-expression stands for. -/
def Expr.ofSexpr? (text : List Char) : Option Expr :=
  match (cut text).foldlM shift [] with
  | some [.operand e] => some e
  | _ => none

namespace Sexpr

theorem ofAtom?_char (op : Operator) : Entry.ofAtom? [op.char] = some (.operator op) := by
  cases op <;> rfl

/-- No operator is written as an integer is. -/
theorem ofText?_write (n : Int) : Operator.ofText? (Numeral.write n) = none := by
  refine List.find?_eq_none.2 fun op _ => ?_
  rw [beq_iff_eq, ← Literal.text_ofInt]
  intro hop
  -- an integer has a digit, and no operator is one
  obtain ⟨d, hd⟩ := List.exists_mem_of_ne_nil _ (Literal.ofInt n).nonempty
  have hmem : d ∈ [op.char] := hop ▸ (Literal.ofInt n).digits_suffix.subset hd
  have hdigit := (Literal.ofInt n).all_digits d hd
  rw [List.mem_singleton.1 hmem] at hdigit
  exact absurd hdigit (by cases op <;> decide)

theorem ofAtom?_write (n : Int) :
    Entry.ofAtom? (Numeral.write n) = some (.operand (.constant n)) := by
  unfold Entry.ofAtom?
  rw [ofText?_write, ← Literal.text_ofInt, Literal.ofText?_text]
  dsimp only [Option.map_some]
  rw [Literal.value_ofInt]

/-- **The items of an expression put the expression on the stack.** -/
theorem foldlM_items (e : Expr) (stack : List Entry) :
    e.items.foldlM shift stack = some (.operand e :: stack) := by
  induction e generalizing stack with
  | constant n =>
    show (Entry.ofAtom? (Numeral.write n)).map (· :: stack) >>= pure = _
    rw [ofAtom?_write]
    rfl
  | binary op left right ihleft ihright =>
    -- what is on the stack stays below, so that each side is read as if it stood alone
    have hfront : [Item.opening, .atom [op.char]].foldlM shift stack
        = some (.operator op :: .opening :: stack) := by
      show (Entry.ofAtom? [op.char]).map (· :: .opening :: stack) >>= pure = _
      rw [ofAtom?_char]
      rfl
    rw [Expr.items, List.foldlM_append, List.foldlM_append, List.foldlM_append, hfront]
    show ((left.items.foldlM shift _).bind fun stack => _).bind _ = _
    rw [ihleft]
    show (right.items.foldlM shift _).bind _ = _
    rw [ihright]
    rfl

end Sexpr

/-- **An S-expression is read back**, in either layout. -/
theorem Expr.ofSexpr?_toSexpr (e : Expr) (indented : Bool) :
    ofSexpr? (e.toSexpr indented) = some e := by
  rw [ofSexpr?, cut_toSexpr, foldlM_items]

/-- In front of a minus sign that begins a constant, a minus sign is an operator. -/
example : Expr.ofSexpr? ['(', '-', ' ', '-', '5', '\n', '(', '/', ' ', '0', ' ', '7', ')', ')']
    = some (.binary .subtract (.constant (-5)) (.binary .divide (.constant 0) (.constant 7))) := by
  rfl

/-! ## Outlines -/

namespace Outline

/-- The line of an operation without its indentation. -/
def operationText (op : Operator) : List Char :=
  "Binary ".toList ++ op.label.toList ++ [' ', '(', op.char, ')']

/-- The operation whose line a text is. -/
def operator? (text : List Char) : Option Operator :=
  Operator.all.find? fun op => operationText op == text

/-- The integer whose line a text is. -/
def constant? (text : List Char) : Option Int :=
  (("Constant ".toList.isPrefixOf? text).bind Literal.ofText?).map Literal.value

/-- Puts the node of a line in front of the expressions on the lines below; an operation takes its
two sides from them. An empty line stands for nothing. -/
def place (line : List Char) (below : List Expr) : Option (List Expr) :=
  if line = [] then some below
  else
    let node := line.dropWhile (· == ' ')
    match constant? node, operator? node, below with
    | some n, _, below => some (.constant n :: below)
    | none, some op, left :: right :: below => some (.binary op left right :: below)
    | none, _, _ => none

/-- The expressions that the lines of a text stand for. -/
def exprs? (text : List Char) : Option (List Expr) :=
  (Line.split '\n' '\r' text).foldrM (fun l below => place l.text below) []

end Outline

/-- The expression that a text of one outline stands for. -/
def Expr.ofOutline? (text : List Char) : Option Expr :=
  match Outline.exprs? text with
  | some [e] => some e
  | _ => none

namespace Outline

theorem constant?_nodeText (n : Int) : constant? (Expr.constant n).nodeText = some n := by
  have hword : "Constant ".toList.isPrefixOf? (Expr.constant n).nodeText
      = some (Numeral.write n) := rfl
  unfold constant?
  rw [hword, ← Literal.text_ofInt]
  dsimp only [Option.bind_some]
  rw [Literal.ofText?_text, Option.map_some, Literal.value_ofInt]

theorem constant?_operationText (op : Operator) : constant? (operationText op) = none := by
  cases op <;> rfl

theorem operator?_operationText (op : Operator) : operator? (operationText op) = some op := by
  cases op <;> rfl

/-- The name of a node is no blank. -/
theorem dropWhile_nodeText (e : Expr) (count : Nat) :
    (List.replicate count ' ' ++ e.nodeText).dropWhile (· == ' ') = e.nodeText := by
  have hnode : e.nodeText.dropWhile (· == ' ') = e.nodeText := by cases e <;> rfl
  rw [List.dropWhile_append_of_pos, hnode]
  intro c hc
  rw [List.eq_of_mem_replicate hc]
  rfl

theorem place_line (e : Expr) (count : Nat) (below : List Expr) :
    place (List.replicate count ' ' ++ e.nodeText) below =
      match constant? e.nodeText, operator? e.nodeText, below with
      | some n, _, below => some (.constant n :: below)
      | none, some op, left :: right :: below => some (.binary op left right :: below)
      | none, _, _ => none := by
  have hne : e.nodeText ≠ [] := by cases e <;> exact List.cons_ne_nil _ _
  unfold place
  rw [if_neg (List.append_ne_nil_of_right_ne_nil _ hne), dropWhile_nodeText]

theorem place_constant (n : Int) (count : Nat) (below : List Expr) :
    place (List.replicate count ' ' ++ (Expr.constant n).nodeText) below
      = some (.constant n :: below) := by
  rw [place_line, constant?_nodeText]

theorem place_binary (op : Operator) (left right : Expr) (count : Nat) (below : List Expr) :
    place (List.replicate count ' ' ++ (Expr.binary op left right).nodeText)
      (left :: right :: below) = some (.binary op left right :: below) := by
  have htext : (Expr.binary op left right).nodeText = operationText op := rfl
  rw [place_line, htext, constant?_operationText, operator?_operationText]

/-- No node breaks its line. -/
theorem plain_of_mem_nodeText {e : Expr} {c : Char} (hc : c ∈ e.nodeText) :
    Line.Plain '\n' '\r' c := by
  cases e with
  | constant n =>
    have hword : "Constant ".toList.all (Line.Plain '\n' '\r' ·) = true := by decide
    rcases List.mem_append.1 hc with hc | hc
    · exact of_decide_eq_true (List.all_eq_true.1 hword c hc)
    · exact Line.plain_of_isBlank (inAtom_of_mem_write hc).2.2
  | binary op left right =>
    have hall : (operationText op).all (Line.Plain '\n' '\r' ·) = true := by cases op <;> decide
    exact of_decide_eq_true (List.all_eq_true.1 hall c hc)

/-- The line of a node is placed in front of what the lines below it stand for. -/
theorem exprs?_outlineLine (depth : Nat) (e : Expr) (rest : List Char) :
    exprs? (e.outlineLine depth ++ rest)
      = (exprs? rest).bind (place (List.replicate (2 * depth) ' ' ++ e.nodeText)) := by
  have hplain : ∀ c ∈ List.replicate (2 * depth) ' ' ++ e.nodeText, Line.Plain '\n' '\r' c := by
    intro c hc
    rcases List.mem_append.1 hc with hc | hc
    · rw [List.eq_of_mem_replicate hc]
      decide
    · exact plain_of_mem_nodeText hc
  have hsplit : Line.split '\n' '\r' (e.outlineLine depth ++ rest)
      = ⟨List.replicate (2 * depth) ' ' ++ e.nodeText, ['\n']⟩ :: Line.split '\n' '\r' rest := by
    rw [Expr.outlineLine, List.append_assoc _ ['\n'] rest, Line.split_append_plain hplain,
      List.singleton_append, Line.split_ends (Or.inl rfl)]
    simp [Line.prepend]
  unfold exprs?
  rw [hsplit, List.foldrM_cons]
  rfl

/-- **The lines of an expression put the expression in front** of what the lines below stand for. -/
theorem exprs?_outlineFrom (e : Expr) (depth : Nat) (rest : List Char) :
    exprs? (e.outlineFrom depth ++ rest) = (exprs? rest).map (e :: ·) := by
  induction e generalizing depth rest with
  | constant n =>
    rw [Expr.outlineFrom, exprs?_outlineLine]
    cases exprs? rest with
    | none => rfl
    | some below => rw [Option.bind_some, place_constant, Option.map_some]
  | binary op left right ihleft ihright =>
    -- the line of the operation finds its two sides in front of all that is below them
    rw [Expr.outlineFrom, List.append_assoc, List.append_assoc, exprs?_outlineLine, ihleft, ihright]
    cases exprs? rest with
    | none => rfl
    | some below =>
      rw [Option.map_some, Option.map_some, Option.bind_some, place_binary, Option.map_some]

end Outline

/-- **An outline is read back.** -/
theorem Expr.ofOutline?_outline (e : Expr) : ofOutline? e.outline = some e := by
  have hexprs := Outline.exprs?_outlineFrom e 0 []
  rw [List.append_nil] at hexprs
  rw [ofOutline?, outline, hexprs]
  rfl

/-! ## Telling expressions apart -/

theorem Expr.toSexpr_injective (indented : Bool) :
    Function.Injective (Expr.toSexpr · indented) := by
  intro e e' h
  have hread := congrArg ofSexpr? h
  dsimp only at hread
  rwa [ofSexpr?_toSexpr, ofSexpr?_toSexpr, Option.some.injEq] at hread

theorem Expr.outline_injective : Function.Injective Expr.outline := by
  intro e e' h
  have hread := congrArg ofOutline? h
  rwa [ofOutline?_outline, ofOutline?_outline, Option.some.injEq] at hread

theorem compile_eq_ok_iff {source : Bytes} {text : List Char} :
    compile source = .ok text ↔ ∃ e, Expr.parse source = .ok e ∧ e.toSexpr false = text := by
  unfold compile
  cases Expr.parse source with
  | error failure => simp [Except.map]
  | ok e => simp [Except.map]

/--
**No rendering loses anything.** S-expressions in both layouts and outlines are read back, so that
different expressions have different ones. Two texts that are expressions have the same S-expression
if and only if they have the same tree.
-/
theorem Expr.read_back :
    (∀ (e : Expr) (indented : Bool), ofSexpr? (e.toSexpr indented) = some e) ∧
      (∀ e : Expr, ofOutline? e.outline = some e) ∧
      (∀ indented : Bool, Function.Injective (Expr.toSexpr · indented)) ∧
      Function.Injective Expr.outline ∧
      ∀ source source' : Bytes,
        (∃ text, compile source = .ok text ∧ compile source' = .ok text)
          ↔ ∃ e, Expr.parse source = .ok e ∧ Expr.parse source' = .ok e := by
  refine ⟨ofSexpr?_toSexpr, ofOutline?_outline, toSexpr_injective, outline_injective,
    fun source source' => ?_⟩
  constructor
  · rintro ⟨text, h, h'⟩
    obtain ⟨e, hparse, rfl⟩ := compile_eq_ok_iff.1 h
    obtain ⟨e', hparse', htext⟩ := compile_eq_ok_iff.1 h'
    obtain rfl : e' = e := toSexpr_injective false htext
    exact ⟨e', hparse, hparse'⟩
  · rintro ⟨e, h, h'⟩
    exact ⟨e.toSexpr false, compile_eq_ok_iff.2 ⟨e, h, rfl⟩, compile_eq_ok_iff.2 ⟨e, h', rfl⟩⟩

end Arith
