import Arith.Proofs.Document.Lines

/-!
# Reading a document line by line

The breaks of a text are found from left to right, a carriage return and a line feed behind it
together (`breaksIn`). The lines that a document gives are what stands between them: put together
again they are the content, and no break byte is left in a line (`lineText_lossless`).

A line is cut off at the last byte of its break, and the break bytes at its end are trimmed. Only
the carriage return of a break of two bytes can still be there, so that no byte of the line itself
is trimmed.

A document makes its line index when it is first asked for a line, and keeps it. So every statement
is about a document that was read before, in whatever order (`afterReading`).
-/

namespace Arith.Document

/-! ## The breaks of a text -/

/--
The breaks of a text as they stand in it, from left to right. A carriage return with a line feed
behind it is one break.
-/
def breaksIn : Bytes → List Bytes
  | 0x0D :: 0x0A :: rest => [0x0D, 0x0A] :: breaksIn rest
  | b :: rest => if isBreakByte b then [b] :: breaksIn rest else breaksIn rest
  | [] => []

theorem breaksIn_pair (rest : Bytes) :
    breaksIn (0x0D :: 0x0A :: rest) = [0x0D, 0x0A] :: breaksIn rest := rfl

/-- A byte that ends a line is a break of its own. -/
theorem breaksIn_ends {b : UInt8} {rest : Bytes} (h : Line.Ends 0x0A 0x0D b rest) :
    breaksIn (b :: rest) = [b] :: breaksIn rest := by
  rcases h with rfl | ⟨rfl, hhead⟩
  · rfl
  · cases rest with
    | nil => rfl
    | cons c rest =>
      have hne : c ≠ 0x0A := fun h => hhead (congrArg some h)
      rw [breaksIn]
      · rfl
      · rintro rest' - h
        exact hne (List.cons.inj h).1

theorem breaksIn_plain {b : UInt8} (h : Line.Plain 0x0A 0x0D b) (rest : Bytes) :
    breaksIn (b :: rest) = breaksIn rest := by
  rw [breaksIn]
  · rw [if_neg]
    simp [isBreakByte, h.1, h.2]
  · rintro rest' hb -
    exact h.2 hb

/-- The lines of a text end with its breaks, and the last one with none. -/
theorem endings_lines (content : Bytes) :
    (lines content).map Line.ending = breaksIn content ++ [[]] := by
  unfold lines
  induction content using Line.split_induction return_ne_lineFeed with
  | nil => rfl
  | ends b rest h ih =>
    rw [Line.split_ends h, List.map_cons, ih, breaksIn_ends h, List.cons_append]
  | pair rest ih =>
    rw [Line.split_pair return_ne_lineFeed, List.map_cons, ih, breaksIn_pair, List.cons_append]
  | plain b rest h ih =>
    obtain ⟨l, ls, hsplit⟩ := Line.exists_split_eq_cons 0x0A 0x0D rest
    rw [hsplit] at ih
    rw [Line.split_plain h, hsplit, breaksIn_plain h, ← ih]
    rfl

/-- There are as many lines as a text is cut into. -/
theorem lineCount_ofBytes (content : Bytes) :
    (LineIndex.ofBytes content).lineCount = (lines content).length := by
  obtain ⟨before, last, hlines, hbreaks⟩ := Line.exists_split_eq_concat return_ne_lineFeed content
  have hlength := Line.length_stops hbreaks 0
  rw [LineIndex.lineCount, breaks_ofBytes, lines, hlines, Line.stops_append]
  simp [Line.stops, hlength]

/-- A line stands among the others. -/
theorem exists_of_getElem? {content : Bytes} {n : Nat} {l : Line UInt8}
    (h : (lines content)[n]? = some l) :
    ∃ before after, lines content = before ++ l :: after ∧ before.length = n := by
  obtain ⟨hn, hl⟩ := List.getElem?_eq_some_iff.1 h
  refine ⟨(lines content).take n, (lines content).drop (n + 1), ?_, ?_⟩
  · rw [← hl, ← List.drop_eq_getElem_cons hn, List.take_append_drop]
  · rw [List.length_take, Nat.min_eq_left (Nat.le_of_lt hn)]

/-! ## Documents that were read before -/

/-- A document from which some lines were read, one after the other. -/
def afterReading (d : Document) (others : List Int) : Document :=
  others.foldl (fun d line => (d.lineText line).2) d

/-- A document has some content, and keeps no line index but the one of that content. -/
structure Holds (d : Document) (content : Bytes) : Prop where
  content_eq : d.content = content
  kept : ∀ index ∈ d.index.value?, index = LineIndex.ofBytes content

variable {d : Document} {content : Bytes}

theorem holds_fresh (name : String) (content : Bytes) : Holds { name, content } content :=
  ⟨rfl, nofun⟩

/-- The line index of a document is that of its content, whether it was kept or is made now. -/
theorem Holds.lineIndex_eq (h : d.Holds content) :
    d.lineIndex.1 = LineIndex.ofBytes content ∧ d.lineIndex.2.Holds content := by
  unfold lineIndex Memo.getOrMake
  cases hkept : d.index.value? with
  | none => exact ⟨by rw [h.content_eq], h.content_eq, by simp [h.content_eq]⟩
  | some index =>
    have hindex := h.kept index hkept
    exact ⟨hindex, h.content_eq, h.kept⟩

/-- Reading a line leaves the content as it is. -/
theorem Holds.lineText_eq (h : d.Holds content) (line : Int) :
    (d.lineText line).1
        = ((LineIndex.ofBytes content).lineStart line).map
            (fun _ => lineOf content (LineIndex.ofBytes content) line.toNat) ∧
      (d.lineText line).2.Holds content := by
  obtain ⟨hindex, hholds⟩ := h.lineIndex_eq
  unfold lineText
  dsimp only
  rw [hindex, hholds.content_eq]
  cases (LineIndex.ofBytes content).lineStart line with
  | error f => exact ⟨rfl, hholds⟩
  | ok start => exact ⟨rfl, hholds⟩

/-- Reading lines leaves the content as it is. -/
theorem Holds.afterReading (h : d.Holds content) (others : List Int) :
    (d.afterReading others).Holds content := by
  induction others generalizing d with
  | nil => exact h
  | cons line others ih => exact ih (h.lineText_eq line).2

/-- The line of a number is the one at that place, and there are no others. -/
theorem Holds.lineText_eq_ok_iff (h : d.Holds content) {line : Int} {text : Bytes} :
    (d.lineText line).1 = .ok text ↔
      ∃ (n : Nat) (l : Line UInt8), line = n ∧ (lines content)[n]? = some l ∧ text = l.text := by
  rw [(h.lineText_eq line).1]
  constructor
  · intro htext
    cases hstart : (LineIndex.ofBytes content).lineStart line with
    | error f =>
      rw [hstart] at htext
      cases htext
    | ok start =>
      obtain ⟨hnonneg, hlt⟩ := (LineIndex.lineStart_eq_ok_iff.1 hstart).1
      rw [lineCount_ofBytes] at hlt
      obtain ⟨n, rfl⟩ := Int.eq_ofNat_of_zero_le hnonneg
      have hl := List.getElem?_eq_getElem (Int.ofNat_lt.1 hlt)
      obtain ⟨before, after, hlines, hlength⟩ := exists_of_getElem? hl
      rw [hstart, Int.toNat_natCast, ← hlength, lineOf_eq hlines] at htext
      cases htext
      exact ⟨n, _, rfl, hl, rfl⟩
  · rintro ⟨n, l, rfl, hl, rfl⟩
    obtain ⟨before, after, hlines, rfl⟩ := exists_of_getElem? hl
    rw [lineStart_eq hlines, Int.toNat_natCast, lineOf_eq hlines]
    rfl

/-! ## All lines -/

/--
**The lines of a document and the breaks between them are its content.** The breaks are those that
stand in the content, and there is one line more than there are breaks. No byte of a break is left
in a line, and what is trimmed at the end of a line is a part of its break. All this holds for the
lines that a document gives after any others were read.
-/
theorem lineText_lossless (name : String) (content : Bytes) :
    ∃ ls : List (Line UInt8),
      ls.flatMap Line.whole = content ∧
      ls.map Line.ending = breaksIn content ++ [[]] ∧
      (∀ ending ∈ breaksIn content, Line.IsBreak 0x0A 0x0D ending) ∧
      (∀ l ∈ ls, 0x0A ∉ l.text ∧ 0x0D ∉ l.text) ∧
      ∀ before : List Int,
        let d := afterReading { name, content } before
        d.lineIndex.1.lineCount = (breaksIn content).length + 1 ∧
        (∀ (line : Int) (text : Bytes), (d.lineText line).1 = .ok text ↔
          ∃ (n : Nat) (l : Line UInt8), line = n ∧ ls[n]? = some l ∧ text = l.text) ∧
        ∀ (n : Nat) (l : Line UInt8), ls[n]? = some l →
          ∃ cut, cut <+: l.ending ∧ untrimmed content d.lineIndex.1 n = l.text ++ cut := by
  refine ⟨lines content, Line.flatMap_whole_split return_ne_lineFeed content,
    endings_lines content, ?_, ?_, ?_⟩
  · intro ending hending
    obtain ⟨before, last, hlines, hbreaks⟩ :=
      Line.exists_split_eq_concat return_ne_lineFeed content
    have hbreaksIn := endings_lines content
    rw [lines, hlines, List.map_append] at hbreaksIn
    rw [← (List.append_inj' hbreaksIn rfl).1] at hending
    obtain ⟨l, hl, rfl⟩ := List.mem_map.1 hending
    exact hbreaks l hl
  · intro l hl
    have hplain := Line.plain_of_mem_split return_ne_lineFeed content l hl
    exact ⟨fun h => (hplain _ h).1 rfl, fun h => (hplain _ h).2 rfl⟩
  · intro before d
    have hholds : d.Holds content := (holds_fresh name content).afterReading before
    have hcount := congrArg List.length (endings_lines content)
    rw [List.length_map, List.length_append, List.length_singleton] at hcount
    rw [hholds.lineIndex_eq.1]
    refine ⟨(lineCount_ofBytes content).trans hcount, fun _ _ => hholds.lineText_eq_ok_iff, ?_⟩
    intro n l hl
    obtain ⟨front, after, hlines, rfl⟩ := exists_of_getElem? hl
    obtain ⟨cut, more, hending, -, huntrimmed⟩ := untrimmed_eq hlines
    exact ⟨cut, ⟨more, hending.symm⟩, huntrimmed⟩

/-- Of two carriage returns, only the second one is a part of the break at the line feed. -/
theorem lineText_lossless_returns :
    let content : Bytes := [0x61, 0x0D, 0x0D, 0x0A]
    let d := afterReading { name := "", content } [1]
    breaksIn content = [[0x0D], [0x0D, 0x0A]] ∧ (d.lineText 0).1 = .ok [0x61] ∧
      ∃ l : Line UInt8, l.text = [0x61] ∧ 0x0A ∉ l.text ∧ 0x0D ∉ l.text ∧
        ∃ cut, cut <+: l.ending ∧ untrimmed content d.lineIndex.1 0 = l.text ++ cut := by
  intro content d
  have hbreaks : breaksIn content = [[0x0D], [0x0D, 0x0A]] := rfl
  have hfirst : (lines content)[0]? = some ⟨[0x61], [0x0D]⟩ := rfl
  have hholds : d.Holds content := (holds_fresh "" content).afterReading [1]
  have htext : (d.lineText 0).1 = .ok [0x61] :=
    hholds.lineText_eq_ok_iff.2 ⟨0, _, rfl, hfirst, rfl⟩
  obtain ⟨ls, -, -, -, hplain, hread⟩ := lineText_lossless "" content
  obtain ⟨-, hlines, hcut⟩ := hread [1]
  obtain ⟨n, l, hn, hl, htext'⟩ := (hlines 0 [0x61]).1 htext
  obtain rfl : n = 0 := by omega
  obtain ⟨hlf, hcr⟩ := hplain l (List.mem_of_getElem? hl)
  exact ⟨hbreaks, htext, l, htext'.symm, hlf, hcr, hcut 0 l hl⟩

end Arith.Document
