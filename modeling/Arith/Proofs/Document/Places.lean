import Arith.Proofs.Document.Breaks

/-!
# Offsets and places

A place is a line and a number of bytes before it in that line. An offset is located at the line in
front of which so many breaks stand as are smaller than the offset, and the start of that line and
the place in it give the offset back. Conversely every place that is not behind the break of its
line is where just one offset is located, so that locating and starting a line are inverse to each
other, and the order of offsets is that of places (`locate?_inverse_lineStart`).

All this rests on the breaks being in order (`pairwise_breaks`): then the number of the smaller ones
is the place at which the search ends (`lowerBound_eq_countP`).
-/

namespace Arith.LineIndex

/-! ## Smaller numbers in a table -/

/-- In a list in order, the numbers below a bound are the first ones. -/
theorem lt_iff_lt_countP {table : List Int} (h : table.Pairwise (· < ·)) (bound : Int) {i : Nat}
    {entry : Int} (hentry : table[i]? = some entry) :
    entry < bound ↔ i < table.countP (· < bound) := by
  induction table generalizing i with
  | nil => cases hentry
  | cons first others ih =>
    obtain ⟨hfirst, hothers⟩ := List.pairwise_cons.1 h
    by_cases hsmall : first < bound
    · rw [List.countP_cons_of_pos (by simpa using hsmall)]
      cases i with
      | zero =>
        cases hentry
        simpa using hsmall
      | succ i => rw [ih hothers hentry, Nat.add_lt_add_iff_right]
    · -- the others are greater than the first one
      have hnone : others.countP (· < bound) = 0 := by
        refine List.countP_eq_zero.2 fun other hother => ?_
        have := hfirst other hother
        simp only [decide_eq_true_eq]
        omega
      rw [List.countP_cons_of_neg (by simpa using hsmall), hnone]
      have hle : first ≤ entry := by
        rcases List.mem_cons.1 (List.mem_of_getElem? hentry) with rfl | hother
        · exact Int.le_refl _
        · exact Int.le_of_lt (hfirst entry hother)
      omega

/-- In a table in order, the search ends behind the smaller numbers. -/
theorem lowerBound_eq_countP {table : Array Int} (h : table.toList.Pairwise (· < ·)) (bound : Int) :
    lowerBound table bound 0 table.size = table.toList.countP (· < bound) := by
  refine Document.lowerBound_eq (Nat.zero_le _) List.countP_le_length (Nat.le_refl _) ?_ ?_
  · intro i entry hi hentry
    rw [← Array.getElem?_toList] at hentry
    exact (lt_iff_lt_countP h bound hentry).2 hi
  · intro i entry hi hentry
    rw [← Array.getElem?_toList] at hentry
    exact Int.not_lt.1 fun hlt => Nat.not_lt.2 hi ((lt_iff_lt_countP h bound hentry).1 hlt)

/-! ## Places -/

/-- The number of the breaks in front of an offset. -/
def breaksBelow (index : LineIndex) (offset : Int) : Nat :=
  index.breaks.toList.countP (· < offset)

/-- A place lies in a line of the index, and not behind the break of the line. -/
def Inside (index : LineIndex) (line column : Nat) : Prop :=
  line < index.lineCount ∧
    ∀ stop, index.breaks[line]? = some stop → index.startOf line + column ≤ stop

/-- The breaks are in order, and none is in front of the text. -/
structure Ordered (index : LineIndex) : Prop where
  pairwise : index.breaks.toList.Pairwise (· < ·)
  nonneg : ∀ stop ∈ index.breaks, 0 ≤ stop

theorem ordered_ofBytes (content : Bytes) : (ofBytes content).Ordered :=
  ⟨pairwise_breaks content, fun _ => nonneg_of_mem_breaks⟩

variable {index : LineIndex}

/-- The breaks in front of an offset are the first ones. -/
theorem Ordered.lt_iff (h : index.Ordered) {offset stop : Int} {line : Nat}
    (hstop : index.breaks[line]? = some stop) : stop < offset ↔ line < index.breaksBelow offset :=
  lt_iff_lt_countP h.pairwise offset (by rwa [Array.getElem?_toList])

theorem Ordered.break_lt_break (h : index.Ordered) {line : Nat} {stop stop' : Int}
    (hstop : index.breaks[line]? = some stop) (hstop' : index.breaks[line + 1]? = some stop') :
    stop < stop' := by
  rw [← Array.getElem?_toList] at hstop hstop'
  obtain ⟨hline, rfl⟩ := List.getElem?_eq_some_iff.1 hstop
  obtain ⟨hline', rfl⟩ := List.getElem?_eq_some_iff.1 hstop'
  exact List.pairwise_iff_getElem.1 h.pairwise line (line + 1) hline hline' (Nat.lt_succ_self line)

theorem breaksBelow_mono (index : LineIndex) {offset offset' : Int} (h : offset ≤ offset') :
    index.breaksBelow offset ≤ index.breaksBelow offset' := by
  refine List.countP_mono_left fun stop _ hlt => ?_
  simp only [decide_eq_true_eq] at hlt ⊢
  omega

/-- The line of an offset is the number of the breaks in front of it. -/
theorem Ordered.locate_line (h : index.Ordered) (offset : Nat) :
    (index.locate offset).1 = index.breaksBelow offset :=
  lowerBound_eq_countP h.pairwise offset

/-- A line begins behind the break in front of it. -/
theorem startOf_succ {line : Nat} {stop : Int} (h : index.breaks[line]? = some stop) :
    index.startOf (line + 1) = stop + 1 := by
  rw [startOf, Array.getD_eq_getD_getElem?, h, Option.getD_some]

theorem exists_break_of_lt {line : Nat} (h : line + 1 < index.lineCount) :
    ∃ stop, index.breaks[line]? = some stop :=
  ⟨_, Array.getElem?_eq_getElem (Nat.lt_of_succ_lt_succ h)⟩

theorem Ordered.startOf_nonneg (h : index.Ordered) {line : Nat} (hline : line < index.lineCount) :
    0 ≤ index.startOf line := by
  cases line with
  | zero => exact Int.le_refl 0
  | succ line =>
    obtain ⟨stop, hstop⟩ := exists_break_of_lt hline
    have := h.nonneg stop (Array.mem_of_getElem? hstop)
    rw [startOf_succ hstop]
    omega

/-- The start of a line is a place in it. -/
theorem Ordered.inside_start (h : index.Ordered) {line : Nat} (hline : line < index.lineCount) :
    index.Inside line 0 := by
  refine ⟨hline, fun stop hstop => ?_⟩
  cases line with
  | zero =>
    have := h.nonneg stop (Array.mem_of_getElem? hstop)
    simpa [startOf] using this
  | succ line =>
    obtain ⟨before, hbefore⟩ := exists_break_of_lt hline
    have hlt := h.break_lt_break hbefore hstop
    rw [startOf_succ hbefore]
    omega

/-- **An offset is located at the one place inside the lines that gives the offset back.** -/
theorem Ordered.locate_eq_iff (h : index.Ordered) {offset line column : Nat} :
    index.locate offset = (line, column) ↔
      index.Inside line column ∧ index.startOf line + column = offset := by
  constructor
  · intro hlocate
    have hsum := index.startOf_add_locate offset
    have hle := index.locate_line_le offset
    have hline := h.locate_line offset
    rw [hlocate] at hsum hle hline
    refine ⟨⟨Nat.lt_succ_of_le hle, fun stop hstop => ?_⟩, hsum⟩
    have hbreak : ¬ stop < offset := fun hlt => Nat.ne_of_lt ((h.lt_iff hstop).1 hlt) hline
    dsimp only at hsum
    omega
  · rintro ⟨⟨hline, hinside⟩, hsum⟩
    have hcount : index.breaksBelow offset = line := by
      apply Nat.le_antisymm
      · -- otherwise the break of the line would stand in front of the offset
        refine Nat.not_lt.1 fun hlt => ?_
        obtain ⟨stop, hstop⟩ : ∃ stop, index.breaks[line]? = some stop :=
          ⟨_, Array.getElem?_eq_getElem (Nat.lt_of_lt_of_le hlt List.countP_le_length)⟩
        have := (h.lt_iff hstop).2 hlt
        have := hinside stop hstop
        omega
      · cases line with
        | zero => exact Nat.zero_le _
        | succ line =>
          obtain ⟨stop, hstop⟩ := exists_break_of_lt hline
          rw [startOf_succ hstop] at hsum
          exact (h.lt_iff hstop).1 (by omega)
    have hfst := h.locate_line offset
    have hback := index.startOf_add_locate offset
    rw [hcount] at hfst
    rw [hfst] at hback
    exact Prod.ext hfst (by dsimp only; omega)

/-- Only offsets that are not negative have a place. -/
theorem Ordered.locate?_eq_ok_iff (h : index.Ordered) {offset : Int} {line column : Nat} :
    index.locate? offset = .ok (line, column) ↔
      index.Inside line column ∧ index.startOf line + column = offset := by
  constructor
  · intro hlocate
    unfold locate? at hlocate
    split at hlocate
    next => cases hlocate
    next hnonneg =>
      have hplace := h.locate_eq_iff.1 (Except.ok.inj hlocate)
      rwa [Int.toNat_of_nonneg (Int.not_lt.1 hnonneg)] at hplace
  · rintro ⟨hinside, hsum⟩
    have hstart := h.startOf_nonneg hinside.1
    obtain ⟨n, rfl⟩ := Int.eq_ofNat_of_zero_le (show 0 ≤ offset by omega)
    rw [Document.locate?_natCast]
    exact congrArg Except.ok (h.locate_eq_iff.2 ⟨hinside, hsum⟩)

theorem lineStart_natCast {line : Nat} (h : line < index.lineCount) :
    index.lineStart line = .ok (index.startOf line) :=
  lineStart_eq_ok_iff.2 ⟨⟨Int.natCast_nonneg line, Int.ofNat_lt.2 h⟩, rfl⟩

/-! ## Bytes of breaks -/

variable {content : Bytes}

/-- The offsets of the breaks are those of the bytes that end lines. -/
theorem mem_breaks_iff_endsAt {offset : Nat} :
    (offset : Int) ∈ (ofBytes content).breaks ↔ Line.EndsAt 0x0A 0x0D content offset := by
  rw [mem_breaks_iff]
  constructor
  · rintro ⟨stop, hstop, hoffset⟩
    obtain ⟨i, rfl, hends⟩ := (Line.mem_stops_split_iff Document.return_ne_lineFeed).1 hstop
    obtain rfl : offset = i := by omega
    exact hends
  · intro hends
    refine ⟨0 + offset + 1, (Line.mem_stops_split_iff Document.return_ne_lineFeed).2
      ⟨offset, rfl, hends⟩, ?_⟩
    omega

/-- A byte that ends a line belongs to the line that it ends. -/
theorem break_locate {offset : Nat} (h : Line.EndsAt 0x0A 0x0D content offset) :
    (ofBytes content).breaks[((ofBytes content).locate offset).1]? = some (offset : Int) := by
  obtain ⟨line, hstop⟩ := Array.mem_iff_getElem?.1 (mem_breaks_iff_endsAt.2 h)
  have hordered := ordered_ofBytes content
  have hline : line < (ofBytes content).lineCount :=
    Nat.lt_succ_of_lt (Array.getElem?_eq_some_iff.1 hstop).1
  have hstart := (hordered.inside_start hline).2 _ hstop
  have hlocate : (ofBytes content).locate offset
      = (line, (offset - (ofBytes content).startOf line).toNat) := by
    refine hordered.locate_eq_iff.2 ⟨⟨hline, fun stop hstop' => ?_⟩, by omega⟩
    obtain rfl : (offset : Int) = stop := Option.some.inj (hstop.symm.trans hstop')
    omega
  rw [hlocate]
  exact hstop

/-- The two bytes of a break belong to the same line. -/
theorem locate_line_pair {offset : Nat} (hreturn : content[offset]? = some 0x0D)
    (hfeed : content[offset + 1]? = some 0x0A) :
    ((ofBytes content).locate offset).1 = ((ofBytes content).locate (offset + 1)).1 := by
  have hordered := ordered_ofBytes content
  rw [hordered.locate_line, hordered.locate_line]
  refine List.countP_congr fun stop hstop => ?_
  -- the first byte of the two is no break
  have hne : stop ≠ offset := by
    rintro rfl
    rcases mem_breaks_iff_endsAt.1 (Array.mem_toList_iff.1 hstop) with hlf | ⟨-, hnext⟩
    · rw [hreturn] at hlf
      cases hlf
    · exact hnext hfeed
  simp only [decide_eq_true_eq]
  omega

/-! ## Offsets and places are the same -/

/--
**Locating an offset and starting a line are inverse to each other, and keep the order.** Every
offset has a place, in the line that is the number of the smaller breaks; every place inside the
lines is that of just one offset; and of two offsets the smaller one has the place in front. So the
bytes of a break belong to the line that it ends.
-/
theorem locate?_inverse_lineStart (content : Bytes) :
    let index := ofBytes content
    (∀ offset : Nat, ∃ (line column : Nat) (start : Int),
      index.locate? offset = .ok (line, column) ∧ line < index.lineCount ∧
        index.lineStart line = .ok start ∧ start + column = offset ∧
        line = index.breaksBelow offset) ∧
    (∀ line : Nat, line < index.lineCount → ∃ start,
      index.lineStart line = .ok start ∧ index.locate? start = .ok (line, 0)) ∧
    (∀ offset offset' : Nat, offset < offset' → ∃ place place',
      index.locate? offset = .ok place ∧ index.locate? offset' = .ok place' ∧
        (place.1 < place'.1 ∨ place.1 = place'.1 ∧ place.2 < place'.2)) ∧
    (∀ (line column : Nat) (start : Int), index.lineStart line = .ok start →
      (∀ stop, index.breaks[line]? = some stop → start + column ≤ stop) →
      ∀ offset, index.locate? offset = .ok (line, column) ↔ offset = start + column) ∧
    (∀ offset : Nat, Line.EndsAt 0x0A 0x0D content offset →
      index.breaks[(index.locate offset).1]? = some (offset : Int)) ∧
    ∀ offset : Nat, content[offset]? = some 0x0D → content[offset + 1]? = some 0x0A →
      (index.locate offset).1 = (index.locate (offset + 1)).1 := by
  intro index
  have h : index.Ordered := ordered_ofBytes content
  refine ⟨fun offset => ?_, fun line hline => ?_, fun offset offset' hlt => ?_,
    fun line column start hstart hinside offset => ?_, fun _ => break_locate,
    fun _ => locate_line_pair⟩
  · have hline := Nat.lt_succ_of_le (index.locate_line_le offset)
    exact ⟨_, _, _, Document.locate?_natCast index offset, hline, lineStart_natCast hline,
      index.startOf_add_locate offset, h.locate_line offset⟩
  · refine ⟨_, lineStart_natCast hline, h.locate?_eq_ok_iff.2 ⟨h.inside_start hline, ?_⟩⟩
    exact Int.add_zero _
  · refine ⟨_, _, Document.locate?_natCast index offset, Document.locate?_natCast index offset', ?_⟩
    have hle := index.breaksBelow_mono (Int.ofNat_le.2 (Nat.le_of_lt hlt))
    rw [← h.locate_line, ← h.locate_line] at hle
    rcases Nat.lt_or_eq_of_le hle with hlines | hlines
    · exact Or.inl hlines
    · -- in the same line, the places are as far behind its start as the offsets are
      refine Or.inr ⟨hlines, ?_⟩
      have hsum := index.startOf_add_locate offset
      have hsum' := index.startOf_add_locate offset'
      rw [hlines] at hsum
      omega
  · obtain ⟨⟨-, hline⟩, rfl⟩ := lineStart_eq_ok_iff.1 hstart
    rw [Int.toNat_natCast] at hinside ⊢
    rw [h.locate?_eq_ok_iff]
    constructor
    · exact fun hplace => hplace.2.symm
    · exact fun hoffset => ⟨⟨Int.ofNat_lt.1 hline, hinside⟩, hoffset.symm⟩

/-- Both bytes of a break are in the line that it ends, and an empty line has only its break. -/
theorem locate?_inverse_lineStart_empty :
    let content : Bytes := [0x0D, 0x0A, 0x0A]
    let index := ofBytes content
    (1 < index.lineCount ∧ ∃ start,
      index.lineStart (1 : Nat) = .ok start ∧ index.locate? start = .ok (1, 0)) ∧
    ((1 : Nat) < 2 ∧ ∃ place place',
      index.locate? (1 : Nat) = .ok place ∧ index.locate? (2 : Nat) = .ok place' ∧
        (place.1 < place'.1 ∨ place.1 = place'.1 ∧ place.2 < place'.2)) ∧
    (index.lineStart (1 : Nat) = .ok 2 ∧ index.breaks[1]? = some 2 ∧
      ∀ offset, index.locate? offset = .ok (1, 0) ↔ offset = 2) ∧
    (Line.EndsAt 0x0A 0x0D content 1 ∧
      index.breaks[(index.locate (1 : Nat)).1]? = some ((1 : Nat) : Int)) ∧
    (content[0]? = some 0x0D ∧ content[0 + 1]? = some 0x0A ∧
      (index.locate 0).1 = (index.locate (0 + 1)).1) := by
  intro content index
  have hbreaks : index.breaks = #[1, 2] := by rw [Document.breaks_ofBytes]; rfl
  have hline : 1 < index.lineCount := by rw [lineCount, hbreaks]; decide
  have hbreak : index.breaks[1]? = some 2 := by rw [hbreaks]; rfl
  have hbegins : index.startOf 1 = 2 := by rw [startOf, hbreaks]; rfl
  have hstart : index.lineStart (1 : Nat) = .ok 2 := by rw [lineStart_natCast hline, hbegins]
  have hends : Line.EndsAt 0x0A 0x0D content 1 := Or.inl rfl
  obtain ⟨-, hstarts, horder, hplaces, hlocated, hpairs⟩ := locate?_inverse_lineStart content
  refine ⟨⟨hline, hstarts 1 hline⟩, ⟨by decide, horder 1 2 (by decide)⟩,
    ⟨hstart, hbreak, ?_⟩, ⟨hends, hlocated 1 hends⟩, rfl, rfl, hpairs 0 rfl rfl⟩
  refine hplaces 1 0 2 hstart fun stop hstop => ?_
  rw [← Option.some.inj (hbreak.symm.trans hstop)]
  decide

end Arith.LineIndex
