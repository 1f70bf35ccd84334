import Arith.Expr.Sexpr
import Arith.Proofs.Text.Literal

/-!
# The items of an S-expression

A text of S-expressions is cut into its items: parentheses, and atoms, which are the longest runs of
other characters that are not blank (`Sexpr.cut`). The cutter goes over the text once and holds the
characters of an atom that may still go on.

A writer never goes on with an atom that is held, since it puts a blank in front of everything but
the first item of a list (`Writer.Follows`). So what is cut off a text that was written are the
items that were written, one after the other, in whatever layout (`items_expr`).
-/

namespace Arith.Sexpr

/-! ## Cutting -/

/-- What an S-expression is written with. -/
inductive Item where
  | opening
  | closing
  | atom (text : List Char)
  deriving DecidableEq, Repr

/-- The items in front of a place of a text, and the characters of an atom that may go on there. -/
structure Cutter where
  whole : List Item := []
  held : List Char := []
  deriving DecidableEq, Repr

namespace Cutter

/-- The items in front of the place, if no atom goes on there. -/
def items (s : Cutter) : List Item := if s.held = [] then s.whole else s.whole ++ [.atom s.held]

/-- The cutter behind one more character. -/
def step (s : Cutter) (c : Char) : Cutter :=
  if c = '(' then { whole := s.items ++ [.opening] }
  else if c = ')' then { whole := s.items ++ [.closing] }
  else if isBlank c then { whole := s.items }
  else { s with held := s.held ++ [c] }

/-- The cutter behind a text. -/
def run (s : Cutter) (text : List Char) : Cutter := text.foldl step s

end Cutter

/-- The items of a text. -/
def cut (text : List Char) : List Item := (Cutter.run {} text).items

/-- A character that stands in atoms. -/
def InAtom (c : Char) : Prop := c ≠ '(' ∧ c ≠ ')' ∧ isBlank c = false

namespace Cutter

variable (s : Cutter)

@[simp] theorem run_nil : s.run [] = s := rfl

@[simp] theorem run_cons (c : Char) (text : List Char) : s.run (c :: text) = (s.step c).run text :=
  rfl

theorem run_append (text text' : List Char) : s.run (text ++ text') = (s.run text).run text' :=
  List.foldl_append

@[simp] theorem items_whole (whole : List Item) : items { whole } = whole := rfl

theorem step_blank {c : Char} (h : isBlank c = true) : s.step c = { whole := s.items } := by
  unfold step
  rw [if_neg (by rintro rfl; cases h), if_neg (by rintro rfl; cases h), if_pos h]

theorem step_inAtom {c : Char} (h : InAtom c) : s.step c = { s with held := s.held ++ [c] } := by
  obtain ⟨hopening, hclosing, hblank⟩ := h
  unfold step
  rw [if_neg hopening, if_neg hclosing, if_neg (by rw [hblank]; exact Bool.false_ne_true)]

/-- Blanks are no items. -/
theorem items_blanks {blanks : List Char} (h : ∀ c ∈ blanks, isBlank c = true) :
    (s.run blanks).items = s.items := by
  induction blanks generalizing s with
  | nil => rfl
  | cons c blanks ih =>
    obtain ⟨hc, hblanks⟩ := List.forall_mem_cons.1 h
    rw [run_cons, step_blank s hc, ih _ hblanks, items_whole]

/-- The characters of an atom are held. -/
theorem run_inAtom {text : List Char} (h : ∀ c ∈ text, InAtom c) :
    s.run text = { s with held := s.held ++ text } := by
  induction text generalizing s with
  | nil => rw [List.append_nil, run_nil]
  | cons c text ih =>
    obtain ⟨hc, htext⟩ := List.forall_mem_cons.1 h
    rw [run_cons, step_inAtom s hc, ih _ htext]
    simp

end Cutter

/-! ## What a writer writes -/

namespace Writer

variable {w : Writer} {s : Cutter}

/-- At the start of a list no atom is held that could go on. -/
def Follows (w : Writer) (s : Cutter) : Prop := w.atListStart = true → s.held = []

theorem follows_of_not_atListStart (h : w.atListStart = false) (s : Cutter) : w.Follows s := by
  intro hstart
  rw [h] at hstart
  cases hstart

/-- What a writer puts in front of an item ends an atom. -/
theorem run_gap (h : w.Follows s) : s.run w.gap = { whole := s.items } := by
  unfold gap
  split
  next hstart =>
    rw [Cutter.run_nil, Cutter.items, if_pos (h hstart)]
    exact congrArg (Cutter.mk s.whole) (h hstart)
  next =>
    rw [Cutter.run_cons, Cutter.run_nil]
    exact Cutter.step_blank s rfl

/-- An atom is an item of its own. -/
theorem items_atom {text : List Char} (hne : text ≠ []) (htext : ∀ c ∈ text, InAtom c)
    (h : w.Follows s) : (s.run (w.atom text).1).items = s.items ++ [.atom text] := by
  unfold atom
  rw [Cutter.run_append, run_gap h, Cutter.run_inAtom _ htext, List.nil_append, Cutter.items,
    if_neg hne]

/-- What stands in front of a list is blank in both layouts. -/
theorem exists_openList (w : Writer) : ∃ blanks,
    w.openList = (blanks ++ ['('], { w with depth := w.depth + 1, atListStart := true }) ∧
      ∀ c ∈ blanks, isBlank c = true := by
  refine ⟨_, rfl, ?_⟩
  intro c hc
  split at hc
  next =>
    split at hc
    · rcases List.mem_cons.1 hc with rfl | hc
      · rfl
      · rw [List.eq_of_mem_replicate hc]
        rfl
    · cases hc
  next =>
    unfold gap at hc
    split at hc
    · cases hc
    · rw [List.mem_singleton.1 hc]
      rfl

/-- A parenthesis that opens a list is an item, and nothing is held behind it. -/
theorem run_openList (w : Writer) (s : Cutter) :
    s.run w.openList.1 = { whole := s.items ++ [.opening] } := by
  obtain ⟨blanks, hopen, hblanks⟩ := w.exists_openList
  rw [hopen, Cutter.run_append, ← s.items_blanks hblanks]
  rfl

end Writer

/-! ## Expressions -/

end Arith.Sexpr

namespace Arith

open Sexpr
open Numeral (Literal)

/-- The items of an expression. -/
def Expr.items : Expr → List Item
  | constant n => [.atom (Numeral.write n)]
  | binary op left right =>
    [.opening, .atom [op.char]] ++ left.items ++ right.items ++ [.closing]

theorem inAtom_char (op : Operator) : InAtom op.char := by
  cases op <;> exact ⟨by decide, by decide, by decide⟩

theorem inAtom_of_mem_write {n : Int} {c : Char} (hc : c ∈ Numeral.write n) : InAtom c := by
  have hdigit {d : Char} (hd : isDigit d = true) : InAtom d := by
    refine ⟨?_, ?_, isBlank_of_isDigit hd⟩
    · rintro rfl
      cases hd
    · rintro rfl
      cases hd
  rw [← Literal.text_ofInt, Literal.text] at hc
  split at hc
  · rcases List.mem_cons.1 hc with rfl | hc
    · exact ⟨by decide, by decide, by decide⟩
    · exact hdigit (Literal.all_digits _ c hc)
  · exact hdigit (Literal.all_digits _ c hc)

theorem write_ne_nil (n : Int) : Numeral.write n ≠ [] := by
  rw [← Literal.text_ofInt]
  exact Literal.text_ne_nil _

/-- Behind an expression no list starts. -/
theorem Sexpr.Writer.atListStart_expr (e : Expr) (w : Writer) :
    (w.expr e).2.atListStart = false := by
  cases e <;> rfl

/-- **What is cut off an expression are its items**, whatever the layout is and whatever was written
before. -/
theorem Sexpr.Writer.items_expr (e : Expr) {w : Writer} {s : Cutter} (h : w.Follows s) :
    (s.run (w.expr e).1).items = s.items ++ e.items := by
  induction e generalizing w s with
  | constant n => exact items_atom (write_ne_nil n) (fun _ => inAtom_of_mem_write) h
  | binary op left right ihleft ihright =>
    -- the writers and cutters behind the parenthesis, the operator and the left side
    let w1 := w.openList.2
    let s1 := s.run w.openList.1
    let w2 := (w1.atom [op.char]).2
    let s2 := s1.run (w1.atom [op.char]).1
    let w3 := (w2.expr left).2
    let s3 := s2.run (w2.expr left).1
    have hopen : s1 = { whole := s.items ++ [.opening] } := run_openList w s
    have hoperator : s2.items = s1.items ++ [.atom [op.char]] :=
      items_atom (List.cons_ne_nil _ _) (List.forall_mem_singleton.2 (inAtom_char op))
        (fun _ => by rw [hopen])
    have hleft : s3.items = s2.items ++ left.items :=
      ihleft (follows_of_not_atListStart rfl s2)
    have hright : (s3.run (w3.expr right).1).items = s3.items ++ right.items :=
      ihright (follows_of_not_atListStart (atListStart_expr left w2) s3)
    have htext : (w.expr (.binary op left right)).1
        = w.openList.1 ++ (w1.atom [op.char]).1 ++ (w2.expr left).1 ++ (w3.expr right).1 ++ [')'] :=
      rfl
    calc (s.run (w.expr (.binary op left right)).1).items
        = ((s3.run (w3.expr right).1).run [')']).items := by
          rw [htext]
          simp only [Cutter.run_append]
          rfl
      _ = (s3.run (w3.expr right).1).items ++ [.closing] := rfl
      _ = s.items ++ (Expr.binary op left right).items := by
          rw [hright, hleft, hoperator, hopen, Cutter.items_whole]
          simp only [Expr.items, List.append_assoc, List.cons_append, List.nil_append]

/-- The items of a written expression. -/
theorem Expr.cut_toSexpr (e : Expr) (indented : Bool) : cut (e.toSexpr indented) = e.items :=
  Writer.items_expr e (fun _ => rfl)

end Arith
