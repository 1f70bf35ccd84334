/-!
# Spans of bytes

A half-open range `[start, stop)` of byte offsets into a source text. Every error and every
token names the bytes that it is about by a span, so a span is ordered by construction.
-/

namespace Arith

/-- The bytes of a source text, or of a part of it. -/
abbrev Bytes := List UInt8

/-- A half-open range of byte offsets. -/
structure Span where
  start : Nat
  stop : Nat
  ordered : start ≤ stop := by omega
  deriving DecidableEq, Repr

/-- Two offsets that do not bound a span: one is negative, or they are in the wrong order. -/
structure SpanFault where
  start : Int
  stop : Int
  deriving DecidableEq, Repr

namespace SpanFault

def message (f : SpanFault) : String :=
  s!"invalid span [{f.start}, {f.stop})"

end SpanFault

namespace Span

/-- The number of bytes in a span. -/
def length (s : Span) : Nat := s.stop - s.start

/-- The empty span at an offset. -/
def point (offset : Nat) : Span := ⟨offset, offset, Nat.le_refl _⟩

/-- The span of `count` bytes from `start` on. -/
def ofLength (start count : Nat) : Span := ⟨start, start + count, Nat.le_add_right _ _⟩

/-- The span between two offsets, which have to be non-negative and in order. -/
def ofInts (start stop : Int) : Except SpanFault Span :=
  if h : 0 ≤ start ∧ start ≤ stop then
    .ok ⟨start.toNat, stop.toNat, by omega⟩
  else
    .error ⟨start, stop⟩

/-- The same span in a text that has `count` more bytes in front. -/
def shift (count : Nat) (s : Span) : Span :=
  ⟨count + s.start, count + s.stop, Nat.add_le_add_left s.ordered _⟩

/--
The bytes of a text that a span covers. A span that reaches past the end covers what there is.
-/
def slice (s : Span) (text : Bytes) : Bytes :=
  (text.take s.stop).drop s.start

@[simp] theorem length_point (offset : Nat) : (Span.point offset).length = 0 := by
  simp [Span.point, length]

@[simp] theorem length_ofLength (start count : Nat) :
    (Span.ofLength start count).length = count := by
  simp [Span.ofLength, length]

@[simp] theorem length_shift (count : Nat) (s : Span) : (s.shift count).length = s.length := by
  simp only [shift, length]; omega

/-- Two offsets bound a span exactly when they are non-negative and in order. -/
theorem ofInts_natCast {start stop : Nat} (h : start ≤ stop) :
    ofInts start stop = .ok ⟨start, stop, h⟩ := by
  simp [ofInts, h]

end Span

end Arith
