import Arith.Proofs.Document.Lines

/-!
# The breaks of a text

Breaks are looked for among the characters that are read, and malformed bytes are read as something
else than they are. Still no break is hidden, moved or made up by them: the line index holds the
offsets of just the line feeds among the bytes and of the carriage returns that no line feed follows
(`breaks_exact`).
-/

namespace Arith.LineIndex

open Document

variable {content : Bytes}

/-- A break is held by the offset of its last byte. -/
theorem mem_breaks_iff {offset : Int} :
    offset ∈ (ofBytes content).breaks ↔
      ∃ stop ∈ Line.stops 0 (lines content), offset = (stop - 1 : Nat) := by
  rw [breaks_ofBytes, List.mem_toArray, List.mem_map]
  simp only [eq_comm]

/-- No break ends where the text begins. -/
theorem pos_of_mem_stops {stop : Nat} (h : stop ∈ Line.stops 0 (lines content)) : 0 < stop := by
  obtain ⟨i, rfl, -⟩ := (Line.mem_stops_split_iff return_ne_lineFeed).1 h
  exact Nat.succ_pos _

/-- The offsets of the breaks are in order. -/
theorem pairwise_breaks (content : Bytes) :
    (ofBytes content).breaks.toList.Pairwise (· < ·) := by
  have hordered := Line.pairwise_stops 0 (lines content)
  rw [breaks_ofBytes, List.pairwise_map]
  refine hordered.imp_of_mem fun hstop _ hlt => ?_
  have := pos_of_mem_stops hstop
  omega

/--
**The line index of a text holds the offsets of all its line feeds, and of all its carriage returns
that no line feed follows**, in order and nothing else, however malformed the text is.
-/
theorem breaks_exact (content : Bytes) :
    (ofBytes content).breaks.toList.Pairwise (· < ·) ∧
      ∀ offset : Int, offset ∈ (ofBytes content).breaks ↔
        ∃ i : Nat, offset = i ∧
          (content[i]? = some 0x0A ∨ content[i]? = some 0x0D ∧ content[i + 1]? ≠ some 0x0A) := by
  refine ⟨pairwise_breaks content, fun offset => ?_⟩
  rw [mem_breaks_iff]
  constructor
  · rintro ⟨stop, hstop, rfl⟩
    obtain ⟨i, rfl, hends⟩ := (Line.mem_stops_split_iff return_ne_lineFeed).1 hstop
    refine ⟨i, ?_, hends⟩
    rw [Nat.zero_add, Nat.add_sub_cancel]
  · rintro ⟨i, rfl, hends⟩
    refine ⟨0 + i + 1, (Line.mem_stops_split_iff return_ne_lineFeed).2 ⟨i, rfl, hends⟩, ?_⟩
    rw [Nat.zero_add, Nat.add_sub_cancel]

/-- Lead bytes in front of breaks leave these as they are. -/
example : (ofBytes [0xE2, 0x0D, 0x0A, 0xF0, 0x9F, 0x0D]).breaks = #[2, 5] := by cbv

end Arith.LineIndex
