import Arith.Text.Utf8

/-!
# Lines

A line index holds the offsets of the line breaks of a text: a line feed, a carriage return, or
both together, which count as one break at the line feed. A break belongs to the line that it ends.

The breaks are found among the leniently read characters, so that every text has lines, also one
that is malformed.

Offsets are counted from the place where line 0 begins, and a break in front of it has a negative
one. The index of a text counts from the beginning of the text, so that its breaks are not negative.
-/

namespace Arith

/-- The offsets of the line breaks of a text, in order. -/
structure LineIndex where
  breaks : Array Int
  deriving DecidableEq, Repr

namespace LineIndex

/-- The line breaks among characters with their offsets. -/
def breaksOf : List (Nat × Char) → List Nat
  | [] => []
  | (offset, c) :: rest =>
    if c = '\n' then offset :: breaksOf rest
    else if c = '\r' then
      match rest with
      | (_, '\n') :: _ => breaksOf rest
      | _ => offset :: breaksOf rest
    else breaksOf rest

/-- The line index of a text. -/
def ofBytes (text : Bytes) : LineIndex :=
  ⟨((breaksOf (Utf8.lenientFrom 0 text)).map Int.ofNat).toArray⟩

theorem nonneg_of_mem_breaks {text : Bytes} {offset : Int} (h : offset ∈ (ofBytes text).breaks) :
    0 ≤ offset := by
  simp only [ofBytes, List.mem_toArray, List.mem_map] at h
  obtain ⟨n, -, rfl⟩ := h
  exact Int.natCast_nonneg n

/-- The number of lines: one more than there are breaks. -/
def lineCount (index : LineIndex) : Nat := index.breaks.size + 1

/-- Why a place in a text has no line. -/
inductive Fault where
  | negativeOffset (offset : Int)
  | noSuchLine (line : Int) (lastLine : Nat)
  deriving DecidableEq, Repr

def Fault.message : Fault → String
  | negativeOffset offset => s!"negative offset {offset}"
  | noSuchLine line lastLine => s!"line {line} out of range (0..{lastLine})"

/--
The first place from `low` up to `high` of a table in order at which no smaller number stands: the
half that holds it is searched on.
-/
def lowerBound (table : Array Int) (bound : Int) (low high : Nat) : Nat :=
  if low < high then
    let middle := (low + high) / 2
    match table[middle]? with
    | none => low
    | some entry =>
      if entry < bound then lowerBound table bound (middle + 1) high
      else lowerBound table bound low middle
  else low
termination_by high - low

theorem lowerBound_le (table : Array Int) (bound : Int) {low high : Nat} (h : low ≤ high) :
    lowerBound table bound low high ≤ high := by
  fun_induction lowerBound table bound low high with
  | case1 => exact h
  | case2 low high _ middle _ _ _ ih => exact ih (by omega)
  | case3 low high _ middle _ _ _ ih => exact Nat.le_trans (ih (by omega)) (by omega)
  | case4 => exact h

/-- The entry in front of the place is smaller, whether the table is in order or not. -/
theorem lt_of_lowerBound_eq {table : Array Int} {bound : Int} {low high : Nat}
    (h : ∀ i entry, low = i + 1 → table[i]? = some entry → entry < bound) :
    ∀ i entry, lowerBound table bound low high = i + 1 → table[i]? = some entry →
      entry < bound := by
  fun_induction lowerBound table bound low high with
  | case1 => exact h
  | case2 low high _ middle entry found small ih =>
    refine ih fun i e hi he => ?_
    obtain rfl : middle = i := by omega
    rw [found] at he
    exact Option.some.inj he ▸ small
  | case3 low high _ middle entry found _ ih => exact ih h
  | case4 => exact h

/-- The offset at which a line begins, if the table has the break in front of it. -/
def startOf (index : LineIndex) : Nat → Int
  | 0 => 0
  | line + 1 => index.breaks.getD line 0 + 1

/-- The offset at which a line begins. Lines are counted from 0. -/
def lineStart (index : LineIndex) (line : Int) : Except Fault Int :=
  if 0 ≤ line ∧ line < index.lineCount then .ok (index.startOf line.toNat)
  else .error (.noSuchLine line index.breaks.size)

/-- Just the lines of the index have a start. -/
theorem lineStart_eq_ok_iff {index : LineIndex} {line start : Int} :
    index.lineStart line = .ok start ↔
      (0 ≤ line ∧ line < index.lineCount) ∧ start = index.startOf line.toNat := by
  unfold lineStart
  split
  next h => simp [h, eq_comm]
  next h => simp [h]

/-- The line of an offset, counted from 0, and the number of bytes before it in that line. -/
def locate (index : LineIndex) (offset : Nat) : Nat × Nat :=
  let line := lowerBound index.breaks offset 0 index.breaks.size
  (line, (offset - index.startOf line).toNat)

theorem locate_line_le (index : LineIndex) (offset : Nat) :
    (index.locate offset).1 ≤ index.breaks.size :=
  lowerBound_le _ _ (Nat.zero_le _)

/-- A line begins at its offsets or in front of them, so that no place in a line is negative. -/
theorem startOf_locate_le (index : LineIndex) (offset : Nat) :
    index.startOf (index.locate offset).1 ≤ offset := by
  have hle := index.locate_line_le offset
  cases hline : (index.locate offset).1 with
  | zero => exact Int.natCast_nonneg offset
  | succ i =>
    rw [hline] at hle
    have hlt : index.breaks[i] < offset :=
      lt_of_lowerBound_eq (fun _ _ h => absurd h (by omega)) i _ hline
        (Array.getElem?_eq_getElem hle)
    simp only [startOf, Array.getD_eq_getD_getElem?, Array.getElem?_eq_getElem hle,
      Option.getD_some]
    exact Int.add_one_le_of_lt hlt

/-- The start of the line of an offset and the place in the line give the offset back. -/
theorem startOf_add_locate (index : LineIndex) (offset : Nat) :
    index.startOf (index.locate offset).1 + ((index.locate offset).2 : Nat) = offset := by
  have h := index.startOf_locate_le offset
  have : (index.locate offset).2 = (offset - index.startOf (index.locate offset).1).toNat := rfl
  omega

/-- The line of an offset and the place in it; a negative offset has none. -/
def locate? (index : LineIndex) (offset : Int) : Except Fault (Nat × Nat) :=
  if offset < 0 then .error (.negativeOffset offset) else .ok (index.locate offset.toNat)

end LineIndex

end Arith
