import Arith.Proofs.Expr.Grouping
import Arith.Proofs.Expr.Writing

/-!
# The two layouts of an S-expression

The layouts differ in what stands in front of an inner list: a blank, or the beginning of a line.
So an indented text is the flat one, once every line is joined to the line before it by one blank
(`joinLines_expr`), and it has a line for every inner list (`count_newline_expr`). Where its lines
begin is said by `Nests`.
-/

namespace Arith

namespace Sexpr

/-- A text with one blank for every line break and all the blanks right behind it. -/
def joinLines : List Char → List Char
  | [] => []
  | c :: rest =>
    if c = '\n' then ' ' :: joinLines (rest.dropWhile (· == ' '))
    else c :: joinLines rest
termination_by text => text.length
decreasing_by
  · exact Nat.lt_succ_of_le (List.dropWhile_suffix _).length_le
  · exact Nat.lt_succ_self _

@[simp] theorem joinLines_nil : joinLines [] = [] := by
  rw [joinLines]

/-- What stands on one line stays as it is. -/
theorem joinLines_append {text : List Char} (h : '\n' ∉ text) (rest : List Char) :
    joinLines (text ++ rest) = text ++ joinLines rest := by
  induction text with
  | nil => rfl
  | cons c text ih =>
    have hc : c ≠ '\n' := fun hc => h (hc ▸ List.mem_cons_self)
    have htext : '\n' ∉ text := fun hmem => h (List.mem_cons_of_mem c hmem)
    rw [List.cons_append, joinLines, if_neg hc, ih htext, List.cons_append]

/-- The beginning of a line becomes a blank. -/
theorem joinLines_newLine (depth : Nat) (rest : List Char) :
    joinLines (Writer.newLine depth ++ '(' :: rest) = ' ' :: '(' :: joinLines rest := by
  have hblanks : (List.replicate (2 * depth) ' ' ++ '(' :: rest).dropWhile (· == ' ')
      = '(' :: rest := by
    rw [List.dropWhile_append_of_pos]
    · rfl
    · intro c hc
      rw [List.eq_of_mem_replicate hc]
      rfl
  rw [Writer.newLine, List.cons_append, joinLines, if_pos rfl, hblanks, joinLines,
    if_neg (by decide)]

namespace Writer

theorem newline_notMem_number (n : Int) : '\n' ∉ Numeral.write n :=
  newline_notMem_of_inAtom fun _ => inAtom_of_mem_write

theorem newline_notMem_char (op : Arith.Operator) : '\n' ∉ [op.char] :=
  newline_notMem_of_inAtom (List.forall_mem_singleton.2 (inAtom_char op))

/-- Inside a list, a list is put on a line of its own. -/
theorem openList_indented {w : Writer} (hindented : w.indented = true) (hdepth : 0 < w.depth) :
    w.openList.1 = newLine w.depth ++ ['('] := by
  simp [openList, hindented, hdepth]

theorem openList_flat {w : Writer} (hindented : w.indented = false) (hstart : w.atListStart = false) :
    w.openList.1 = [' ', '('] := by
  simp [openList, gap, hindented, hstart]

/--
**Inside a list, the lines of an expression join to what is written without line breaks.** Only the
layout and the number of open lists may be different.
-/
theorem joinLines_expr (e : Expr) {w v : Writer} (hw : w.indented = true) (hdepth : 0 < w.depth)
    (hv : v.indented = false) (hws : w.atListStart = false) (hvs : v.atListStart = false)
    (rest : List Char) :
    joinLines ((w.expr e).1 ++ rest) = (v.expr e).1 ++ joinLines rest := by
  induction e generalizing w v rest with
  | constant n =>
    have hplain : '\n' ∉ ' ' :: Numeral.write n := by
      simpa using newline_notMem_number n
    simpa [expr, atom, gap, hws, hvs] using joinLines_append hplain rest
  | binary op left right ihleft ihright =>
    have hclosing : '\n' ∉ [')'] := by decide
    rw [fst_expr_binary, fst_expr_binary, openList_indented hw hdepth, openList_flat hv hvs]
    simp only [List.append_assoc]
    rw [List.singleton_append, joinLines_newLine, joinLines_append (newline_notMem_char op),
      ihleft (w := w.inside) (v := v.inside) hw (Nat.succ_pos _) hv rfl rfl,
      ihright (w := w.inside) (v := v.inside) hw (Nat.succ_pos _) hv rfl rfl,
      joinLines_append hclosing]
    rfl

/-- **Inside a list, every list is put on a line of its own.** -/
theorem count_newline_expr (e : Expr) {w : Writer} (hindented : w.indented = true)
    (hdepth : 0 < w.depth) : (w.expr e).1.count '\n' = e.operations.length := by
  induction e generalizing w with
  | constant n =>
    have hgap : w.gap.count '\n' = 0 := by
      unfold gap
      split <;> rfl
    have hnumber := List.count_eq_zero.2 (newline_notMem_number n)
    simp [expr, atom, Arith.Expr.operations, hgap, hnumber]
  | binary op left right ihleft ihright =>
    have hoperator := List.count_eq_zero.2 (newline_notMem_char op)
    have hline : (newLine w.depth ++ ['(']).count '\n' = 1 := by
      simp [newLine, List.count_replicate]
    rw [fst_expr_binary, openList_indented hindented hdepth]
    simp only [List.count_append] at hline ⊢
    rw [hoperator, ihleft (w := w.inside) hindented (Nat.succ_pos _),
      ihright (w := w.inside) hindented (Nat.succ_pos _)]
    simp only [Arith.Expr.operations, List.length_append, List.length_cons]
    have : [')'].count '\n' = 0 := rfl
    omega

end Writer

end Sexpr

open Sexpr

namespace Expr

/-- An outermost operation begins without a gap, and its two sides are inside one list. -/
theorem toSexpr_binary (op : Operator) (left right : Expr) (indented : Bool) :
    (binary op left right).toSexpr indented
      = ['(', op.char] ++ ((Writer.inside { indented }).expr left).1
        ++ ((Writer.inside { indented }).expr right).1 ++ [')'] := by
  rw [toSexpr, Writer.fst_expr_binary]
  cases indented <;> simp [Writer.openList, Writer.gap]

/-- **The lines of an indented S-expression join to the flat one.** -/
theorem joinLines_toSexpr (e : Expr) : joinLines (e.toSexpr true) = e.toSexpr false := by
  cases e with
  | constant n =>
    have hjoin := joinLines_append (Writer.newline_notMem_number n) []
    rwa [joinLines_nil, List.append_nil] at hjoin
  | binary op left right =>
    have hopening : '\n' ∉ ['(', op.char] := by cases op <;> decide
    have hclosing : joinLines [')'] = [')'] := by
      rw [joinLines, if_neg (by decide), joinLines_nil]
    have hside := @Writer.joinLines_expr (w := Writer.inside { indented := true })
      (v := Writer.inside { indented := false })
    rw [toSexpr_binary, toSexpr_binary]
    simp only [List.append_assoc]
    rw [joinLines_append hopening, hside left rfl Nat.one_pos rfl rfl rfl,
      hside right rfl Nat.one_pos rfl rfl rfl, hclosing]

/-- **An indented S-expression has a line break for every operation but the outermost.** -/
theorem count_newline_toSexpr (e : Expr) :
    (e.toSexpr true).count '\n' = e.operations.length - 1 := by
  cases e with
  | constant n => exact List.count_eq_zero.2 (Writer.newline_notMem_number n)
  | binary op left right =>
    have hopening : ['(', op.char].count '\n' = 0 := by cases op <;> rfl
    have hclosing : [')'].count '\n' = 0 := rfl
    rw [toSexpr_binary]
    simp only [List.count_append]
    rw [hopening, hclosing, Writer.count_newline_expr left rfl Nat.one_pos,
      Writer.count_newline_expr right rfl Nat.one_pos]
    simp [operations]

/--
**The two layouts of an S-expression differ in line breaks only.** With one blank for every line
break and the blanks behind it, the indented text is the flat one. In the indented text a line break
stands in front of every inner list and nowhere else, and behind it two blanks for every list around
that list.
-/
theorem toSexpr_layouts (e : Expr) :
    joinLines (e.toSexpr true) = e.toSexpr false ∧
      (∀ pre post, e.toSexpr true = pre ++ '\n' :: post →
        ∃ depth rest, 0 < depth ∧ pre.count '(' = pre.count ')' + depth ∧
          post = List.replicate (2 * depth) ' ' ++ '(' :: rest) ∧
      (e.toSexpr true).count '\n' = e.operations.length - 1 := by
  refine ⟨joinLines_toSexpr e, fun pre post htext => ?_, count_newline_toSexpr e⟩
  obtain ⟨depth, rest, hpos, hcount, hpost⟩ :=
    (Writer.nests_expr e { indented := true }).lineBreak pre post htext
  exact ⟨depth, rest, hpos, (Nat.zero_add _).symm.trans hcount, hpost⟩

/-- One of two inner lists stands in the other one. -/
theorem toSexpr_layouts_inner :
    let e := binary .add (binary .multiply (binary .divide (.constant 8) (.constant 2)) (.constant 3))
      (.constant 1)
    let pre := "(+\n  (*".toList
    let post := "    (/ 8 2) 3) 1)".toList
    e.toSexpr true = pre ++ '\n' :: post ∧
      (∃ depth rest, 0 < depth ∧ pre.count '(' = pre.count ')' + depth ∧
        post = List.replicate (2 * depth) ' ' ++ '(' :: rest) ∧
      joinLines (e.toSexpr true) = "(+ (* (/ 8 2) 3) 1)".toList ∧
      (e.toSexpr true).count '\n' = 2 := by
  intro e pre post
  have hdigit (n : Nat) (hn : n < 10) : Numeral.write n = [Numeral.digitChar n] := by
    rw [Numeral.write, if_neg (by omega), Int.natAbs_natCast, Numeral.writeNat, if_pos hn]
  have hnumbers : Numeral.write 1 = ['1'] ∧ Numeral.write 2 = ['2'] ∧ Numeral.write 3 = ['3'] ∧
      Numeral.write 8 = ['8'] :=
    ⟨hdigit 1 (by decide), hdigit 2 (by decide), hdigit 3 (by decide), hdigit 8 (by decide)⟩
  have hchars : Operator.add.char = '+' ∧ Operator.multiply.char = '*' ∧
      Operator.divide.char = '/' := ⟨rfl, rfl, rfl⟩
  have htext : e.toSexpr true = pre ++ '\n' :: post := by
    simp [e, pre, post, toSexpr, Writer.expr, Writer.openList, Writer.atom, Writer.gap,
      Writer.newLine, hnumbers, hchars]
  have hflat : e.toSexpr false = "(+ (* (/ 8 2) 3) 1)".toList := by
    simp [e, toSexpr, Writer.expr, Writer.openList, Writer.atom, Writer.gap, hnumbers, hchars]
  obtain ⟨hjoin, hbreak, hcount⟩ := toSexpr_layouts e
  exact ⟨htext, hbreak pre post htext, hjoin.trans hflat, hcount⟩

end Expr

end Arith
