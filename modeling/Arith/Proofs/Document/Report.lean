import Arith.Document.Report
import Arith.Files.Path
import Arith.Proofs.Document.Lines
import Arith.Proofs.Expr.Located
import Arith.Proofs.Text.Lossy
import Mathlib

/-!
# What a report shows

The report of a parse error has five rows (`rows`). It shows the line of the source text in which
the error begins, and marks characters of this line: the first mark is under the character at which
the error begins, and the last one is under a character of the line too, unless nothing of the line
is left to be marked (`Shows`). The whole line is decoded with replacement, and so are the bytes in
front of the marks and those above them, each on their own. In front of a parse error the text is
valid, so that the marks are where they should be (`render_of_parse`).
-/

namespace Arith.Report

open Utf8 Document
open Lexer (Denotes)

/-! ## The rows -/

/-- What stands in front of the line that is shown. -/
def lineMargin (line : Nat) : List Char := Numeral.writeNat (line + 1) ++ " | ".toList

/-- What stands in front of the marks, and of the blanks before them. -/
def marksMargin (line : Nat) : List Char :=
  List.replicate ((Numeral.writeNat (line + 1)).length + 1) ' ' ++ "| ".toList

/-- The characters of the line stand above the marks. -/
theorem length_marksMargin (line : Nat) : (marksMargin line).length = (lineMargin line).length := by
  simp [marksMargin, lineMargin]

/-- The rows of a report. -/
def rows (message name : String) (m : Marks) : List (List Char) :=
  let number := Numeral.writeNat (m.line + 1)
  let gutter := List.replicate (number.length + 1) ' '
  [ "error: ".toList ++ message.toList,
    gutter ++ "--> ".toList ++ name.toList ++ [':'] ++ number ++ [':']
      ++ Numeral.writeNat (m.column + 1),
    gutter ++ ['|'],
    lineMargin m.line ++ m.text,
    marksMargin m.line ++ List.replicate m.column ' ' ++ List.replicate m.width '^' ]

theorem renderMarks_eq (message name : String) (m : Marks) :
    renderMarks message name m = ['\n'].intercalate (rows message name m) := by
  unfold renderMarks rows lineMargin marksMargin
  simp [List.intercalate]

/-- No row goes on in the next one, if neither the message nor the name nor the line does. -/
theorem newline_notMem_rows {message name : String} {m : Marks} (hmessage : '\n' ∉ message.toList)
    (hname : '\n' ∉ name.toList) (htext : '\n' ∉ m.text) :
    ∀ row ∈ rows message name m, '\n' ∉ row := by
  have hnumber (n : Nat) : '\n' ∉ Numeral.writeNat n := by
    intro h
    exact absurd (Numeral.isDigit_of_mem_writeNat h) (by decide)
  unfold rows lineMargin marksMargin
  simp [hmessage, hname, htext, hnumber]

theorem splitOn_renderMarks {message name : String} {m : Marks} (hmessage : '\n' ∉ message.toList)
    (hname : '\n' ∉ name.toList) (htext : '\n' ∉ m.text) :
    (renderMarks message name m).splitOn '\n' = rows message name m := by
  rw [renderMarks_eq]
  exact List.splitOn_intercalate '\n' (newline_notMem_rows hmessage hname htext)
    (List.cons_ne_nil _ _)

/-! ## Texts without line feeds -/

/-- The pieces of a text are made of its characters. -/
theorem mem_of_mem_pieces {text piece : List Char} {c : Char} (hpiece : piece ∈ Path.pieces text)
    (hc : c ∈ piece) : c ∈ text := by
  fun_induction Path.pieces text generalizing piece with
  | case1 =>
    rw [List.mem_singleton.1 hpiece] at hc
    cases hc
  | case2 rest ih =>
    rcases List.mem_cons.1 hpiece with rfl | hpiece
    · cases hc
    · exact List.mem_cons_of_mem _ (ih hpiece hc)
  | case3 d rest _ hnil ih =>
    rw [List.mem_singleton.1 hpiece] at hc
    rw [List.mem_singleton.1 hc]
    exact List.mem_cons_self
  | case4 d rest _ first more hpieces ih =>
    rw [hpieces] at ih
    rcases List.mem_cons.1 hpiece with rfl | hpiece
    · rcases List.mem_cons.1 hc with rfl | hc
      · exact List.mem_cons_self
      · exact List.mem_cons_of_mem _ (ih List.mem_cons_self hc)
    · exact List.mem_cons_of_mem _ (ih (List.mem_cons_of_mem _ hpiece) hc)

theorem newline_notMem_intercalate {names : List (List Char)} (h : ∀ name ∈ names, '\n' ∉ name) :
    '\n' ∉ ['/'].intercalate names := by
  induction names with
  | nil => exact List.not_mem_nil
  | cons name names ih =>
    obtain ⟨hname, hnames⟩ := List.forall_mem_cons.1 h
    cases names with
    | nil => simpa [List.intercalate] using hname
    | cons next names =>
      have hrest := ih hnames
      simp only [List.intercalate, List.intersperse, List.flatten_cons, List.mem_append, not_or]
        at hrest ⊢
      exact ⟨hname, by decide, hrest⟩

/-- A path is shown without a line feed if it is written without one. -/
theorem newline_notMem_path {path : String} (h : '\n' ∉ path.toList) :
    '\n' ∉ (Path.ofString path).toString.toList := by
  have hnames : ∀ name ∈ (Path.ofString path).names, '\n' ∉ name := by
    intro name hname hmem
    exact h (mem_of_mem_pieces (List.mem_filter.1 hname).1 hmem)
  rw [Path.toString, String.toList_ofList, Path.toText]
  split
  · decide
  · rw [List.mem_append, not_or]
    constructor
    · cases (Path.ofString path).root <;> decide
    · exact newline_notMem_intercalate hnames

theorem newline_notMem_of_blank {text : List Char} (h : ∀ c ∈ text, isBlank c = false) :
    '\n' ∉ text := by
  intro hmem
  exact absurd (h _ hmem) (by decide)

theorem newline_notMem_append {s t : String} (hs : '\n' ∉ s.toList) (ht : '\n' ∉ t.toList) :
    '\n' ∉ (s ++ t).toList := by
  rw [String.toList_append, List.mem_append, not_or]
  exact ⟨hs, ht⟩

theorem newline_notMem_write (n : Int) : '\n' ∉ Numeral.write n := by
  rw [← Numeral.Literal.text_ofInt]
  exact newline_notMem_of_blank fun c hc => Lexer.Literal.isBlank_of_mem hc

theorem newline_notMem_describe {text : List Char} {lexeme : Lexeme} (h : Denotes text lexeme)
    (htext : '\n' ∉ text) : '\n' ∉ lexeme.describe.toList := by
  cases h with
  | number lit => simp [Lexeme.describe, toString, newline_notMem_write]
  | keyword k => cases k <;> decide
  | identifier => simp [Lexeme.describe, toString, htext]
  | symbol s => cases s <;> decide
  | unknown => decide

/-- A byte is shown by two digits. -/
theorem newline_notMem_showByte (b : UInt8) : '\n' ∉ (Malformed.showByte b).toList := by
  have hdigit {n : Nat} (h : n < 16) : '\n' ≠ (Hex.digit n).toUpper := by
    have hall : ∀ m ∈ List.range 16, '\n' ≠ (Hex.digit m).toUpper := by decide
    exact hall n (List.mem_range.2 h)
  have hhigh := hdigit (Nat.mod_lt (b.toNat / 16) (by decide))
  have hlow := hdigit (Nat.mod_lt b.toNat (by decide))
  simp [Malformed.showByte, Hex.padded, hhigh, hlow]

theorem newline_notMem_malformed (m : Malformed) : '\n' ∉ m.message.toList := by
  cases m with
  | truncated available =>
    show '\n' ∉ "truncated UTF-8 sequence".toList
    decide +kernel
  | badLead b => exact newline_notMem_append (by decide +kernel) (newline_notMem_showByte b)
  | badContinuation place b =>
    exact newline_notMem_append (by decide +kernel) (newline_notMem_showByte b)

/-- **No message goes on in another row.** -/
theorem newline_notMem_message {source : Bytes} {err : ParseError} (h : Located source err) :
    '\n' ∉ err.message.toList := by
  cases h with
  | token herr _ _ hdenotes _ hblank =>
    have hdescribe := newline_notMem_describe hdenotes (newline_notMem_of_blank hblank)
    rcases herr with rfl | rfl
    · exact newline_notMem_append (by decide +kernel) hdescribe
    · exact newline_notMem_append (newline_notMem_append (by decide +kernel) hdescribe)
        (by decide +kernel)
  | @literal lit =>
    have hlit : '\n' ∉ lit.text :=
      newline_notMem_of_blank fun c hc => Lexer.Literal.isBlank_of_mem hc
    rw [← String.toList_ofList (l := lit.text)] at hlit
    exact newline_notMem_append (newline_notMem_append (by decide +kernel) hlit)
      (by decide +kernel)
  | malformed => exact newline_notMem_malformed _
  | ended =>
    show '\n' ∉ "unexpected end of input, expected an expression".toList
    decide +kernel

/-! ## The marks -/

variable {source tail : Bytes} {span : Span} {above below : List (Line UInt8)} {l : Line UInt8}
  {before : List Char}

/-- **The marks of a span that begins behind valid characters of a line.** All characters of the
line that are not in front of the marks come from the bytes behind the place. -/
theorem marks_eq (hlines : lines source = above ++ l :: below)
    (htext : l.text = encode before ++ tail)
    (hstart : span.start = Line.width above + (encode before).length) :
    ∃ count, marks source (LineIndex.ofBytes source) span
        = ⟨above.length, before ++ decodeLossy tail, before.length, max 1 count⟩ ∧
      count ≤ (decodeLossy tail).length ∧
      ∀ text more, tail = encode text ++ more →
        span.stop = span.start + (encode text).length → count = text.length := by
  have hlength := congrArg List.length htext
  rw [List.length_append] at hlength
  have hlocate : (LineIndex.ofBytes source).locate span.start
      = (above.length, (encode before).length) := by
    rw [locate_eq hlines (by omega) (by omega), hstart, Nat.add_sub_cancel_left]
  have hraw := lineOf_eq hlines
  have htake : l.text.take (encode before).length = encode before := by
    rw [htext, List.take_left]
  have hbefore : shownLength (encode before) = before.length := by
    rw [shownLength, decodeLossy_encode]
  have hshown : decodeLossy l.text = before ++ decodeLossy tail := by
    rw [htext, decodeLossy_encode_append]
  unfold marks
  rw [hlocate]
  dsimp only
  rw [hraw, htake, hbefore, hshown]
  refine ⟨_, rfl, ?_, ?_⟩
  · split
    · -- the bytes under the marks are a beginning of those behind the place
      rw [List.drop_take, htext, List.drop_left]
      exact length_decodeLossy_take_le tail _
    · rw [List.length_append]
      omega
  · rintro text more rfl hstop
    have hlocate' : (LineIndex.ofBytes source).locate span.stop
        = (above.length, (encode before).length + (encode text).length) := by
      rw [List.length_append] at hlength
      rw [locate_eq hlines (by omega) (by omega), hstop, hstart]
      refine congrArg (above.length, ·) ?_
      omega
    rw [hlocate', if_pos rfl, List.drop_take, htext, List.drop_left, Nat.add_sub_cancel_left,
      List.take_left, shownLength, decodeLossy_encode]

/-- The number of breaks of a text that end at an offset or in front of it. -/
def breaksUpTo (source : Bytes) (offset : Nat) : Nat :=
  (Line.stops 0 (lines source)).countP (· ≤ offset)

/--
Marks show the line of a text in which a span begins. They begin under the character at which the
span begins, and they end inside the line or are one mark behind its end.
-/
structure Marks.Shows (m : Marks) (source : Bytes) (span : Span) : Prop where
  line_eq : m.line = breaksUpTo source span.start
  shown : ∃ (l : Line UInt8) (before : List Char) (tail : Bytes),
    (lines source)[m.line]? = some l ∧ m.text = decodeLossy l.text ∧
      l.text = encode before ++ tail ∧ m.column = before.length ∧
      span.start = Line.width ((lines source).take m.line) + (encode before).length
  width_pos : 0 < m.width
  inside : m.column + m.width ≤ m.text.length ∨ m.column = m.text.length ∧ m.width = 1

theorem shows_marks (hlines : lines source = above ++ l :: below)
    (htext : l.text = encode before ++ tail)
    (hstart : span.start = Line.width above + (encode before).length) :
    (marks source (LineIndex.ofBytes source) span).Shows source span := by
  obtain ⟨count, hmarks, hcount, -⟩ := marks_eq hlines htext hstart
  have hlength := congrArg List.length htext
  rw [List.length_append] at hlength
  rw [hmarks]
  refine ⟨?_, ⟨l, before, tail, ?_, ?_, htext, rfl, ?_⟩, ?_, ?_⟩
  · exact (countP_stops hlines (by omega) (by omega)).symm
  · rw [hlines, List.getElem?_append_right (Nat.le_refl _), Nat.sub_self]
    rfl
  · rw [htext, decodeLossy_encode_append]
  · rw [hlines, List.take_left]
    exact hstart
  · exact Nat.lt_of_lt_of_le Nat.one_pos (Nat.le_max_left _ _)
  · dsimp only
    rw [List.length_append]
    by_cases hnil : tail = []
    · -- nothing of the line is left
      rw [hnil, decodeLossy_nil, List.length_nil] at hcount ⊢
      exact Or.inr ⟨rfl, by omega⟩
    · have := length_decodeLossy_pos hnil
      exact Or.inl (by omega)

/-! ## Parse errors -/

/-- An error about a token or a literal, all characters of which are valid. -/
def Verbal (err : ParseError) : Prop :=
  err.kind = .unexpectedToken ∨ err.cause?.map TokenError.kind = some .numberRange

/-- The text of a token does not begin with a line feed. -/
theorem head?_encode_append {text : List Char} (hne : text ≠ [])
    (hblank : ∀ c ∈ text, isBlank c = false) (rest : Bytes) :
    (encode text ++ rest).head? ≠ some 0x0A := by
  intro h
  have hpos := (length_encode_pos_iff text).2 hne
  rw [List.head?_append_of_ne_nil _ (List.ne_nil_of_length_pos hpos)] at h
  have hc := List.mem_of_mem_head? (head?_of_encode h)
  exact absurd (hblank _ hc) (by decide)

theorem plain_of_not_blank {text : List Char} (hblank : ∀ c ∈ text, isBlank c = false) :
    ∀ c ∈ text, Line.Plain '\n' '\r' c := by
  intro c hc
  constructor
  · rintro rfl
    exact absurd (hblank _ hc) (by decide)
  · rintro rfl
    exact absurd (hblank _ hc) (by decide)

/-- A text without breaks is in the first line of what it begins. -/
theorem exists_text_of_lines {text : List Char} {rest : Bytes}
    (h : lines (encode text ++ rest) = l :: below) (htext : ∀ c ∈ text, Line.Plain '\n' '\r' c) :
    ∃ more, l.text = encode text ++ more := by
  obtain ⟨first, others, hrest⟩ := Line.exists_split_eq_cons 0x0A 0x0D rest
  rw [lines, Line.split_append_plain (plain_of_mem_encode htext), hrest] at h
  cases h
  exact ⟨first.text, rfl⟩

/-- A parse error begins behind valid characters, and not inside a break. -/
theorem exists_place {err : ParseError} (h : Located source err) :
    ∃ (before : List Char) (tail : Bytes), source = encode before ++ tail ∧
      err.span.start = (encode before).length ∧
      (before.getLast? = some '\r' → tail.head? ≠ some 0x0A) ∧
      (Verbal err → ∃ text rest, tail = encode text ++ rest ∧ text ≠ [] ∧
        (∀ c ∈ text, isBlank c = false) ∧
        err.span.stop = err.span.start + (encode text).length) := by
  cases h with
  | @token _ t before text rest herr _ hstands _ hne hblank =>
    have hspan : err.span = .ofLength (encode before).length (encode text).length := by
      rcases herr with rfl | rfl
      · exact hstands.span_eq
      · exact hstands.span_eq
    rw [hspan]
    exact ⟨before, _, hstands.source_eq, rfl, fun _ => head?_encode_append hne hblank rest,
      fun _ => ⟨text, rest, rfl, hne, hblank, rfl⟩⟩
  | @literal lit span before rest hstands =>
    have hblank : ∀ c ∈ lit.text, isBlank c = false := fun c hc => Lexer.Literal.isBlank_of_mem hc
    have hspan : (ParseError.token (.outOfRange lit.text span)).span
        = .ofLength (encode before).length (encode lit.text).length := hstands.span_eq
    rw [hspan]
    exact ⟨before, _, hstands.source_eq, rfl,
      fun _ => head?_encode_append lit.text_ne_nil hblank rest,
      fun _ => ⟨lit.text, rest, rfl, lit.text_ne_nil, hblank, rfl⟩⟩
  | @malformed before bad m hsource hbad =>
    refine ⟨before, bad, hsource, rfl, fun _ => ?_, ?_⟩
    · obtain ⟨lead, rest, rfl, hdecode⟩ := exists_of_frontFault hbad
      intro hhead
      exact (plain_of_decodeHead_error hdecode).1 (Option.some.inj hhead)
    · rintro (hkind | hkind)
      · cases hkind
      · cases hkind
  | @ended tokens before rest hpulls hsource hend hlast =>
    refine ⟨before, rest, hsource, hend, fun hreturn => ?_, ?_⟩
    · exact absurd (hlast _ hreturn) (by decide)
    · rintro (hkind | hkind)
      · cases hkind
      · cases hkind

/--
**The report of a parse error shows the right line, and marks the right characters.** It has five
rows, and all that it looks up is there. If the error is about a token or a literal, the marks are
under just its characters.
-/
theorem render_of_parse {err : ParseError} {path : String}
    (h : Expr.parse source = .error (.error err)) (hpath : '\n' ∉ path.toList) :
    let d : Document := { name := (Path.ofString path).toString, content := source }
    let index := LineIndex.ofBytes source
    let m := marks source index err.span
    (render err.message (some err.span) d).splitOn '\n' = rows err.message d.name m ∧
      (rows err.message d.name m).length = 5 ∧
      (∃ place, index.locate? err.span.start = .ok place) ∧
      (∃ place, index.locate? err.span.stop = .ok place) ∧
      (∃ line, (d.lineText m.line).1 = .ok line ∧ m.text = decodeLossy line) ∧
      (marksMargin m.line).length = (lineMargin m.line).length ∧
      m.Shows source err.span ∧
      (Verbal err → decode? (err.span.slice source)
        = some ((m.text.drop m.column).take m.width)) := by
  intro d index m
  have hlocated := located_of_parse h
  obtain ⟨before, tail, hsource, hstart, htorn, hverbal⟩ := exists_place hlocated
  obtain ⟨above, below, shown, l, hl, hlines, hwidth⟩ := exists_lines_of_text hsource htorn
  rw [← hstart] at hwidth
  obtain ⟨count, hmarks, -, hexact⟩ := marks_eq hlines rfl hwidth
  have hm : m = ⟨above.length, shown ++ decodeLossy l.text, shown.length, max 1 count⟩ := hmarks
  have hplain := plain_of_lines hlines
  have hnewline : '\n' ∉ decodeLossy (encode shown ++ l.text) := by
    intro hmem
    exact (hplain _ (mem_of_mem_decodeLossy (by decide) hmem)).1 rfl
  have hrow : decodeLossy (encode shown ++ l.text) = m.text := by
    rw [hm, decodeLossy_encode_append]
  refine ⟨?_, rfl, ⟨_, locate?_natCast _ _⟩, ⟨_, locate?_natCast _ _⟩, ⟨_, ?_, hrow.symm⟩,
    length_marksMargin _, shows_marks hlines rfl hwidth, ?_⟩
  · exact splitOn_renderMarks (newline_notMem_message hlocated) (newline_notMem_path hpath)
      (hrow ▸ hnewline)
  · rw [hm]
    exact lineText_eq hlines _
  · intro hv
    obtain ⟨text, rest, rfl, hne, hblank, hstop⟩ := hverbal hv
    obtain ⟨more, hmore⟩ := exists_text_of_lines hl (plain_of_not_blank hblank)
    have hcount := hexact text more hmore hstop
    have hslice : err.span.slice source = encode text := by
      rw [hsource]
      exact Lexer.between_append hstart (by rw [hstop, hstart])
    have hpos := List.length_pos_iff.2 hne
    rw [hslice, decode?_encode, hm, hmore, hcount, decodeLossy_encode_append, List.drop_left,
      Nat.max_eq_right hpos, List.take_left]

/-- In `1 +`, a carriage return with a line feed, and ` é`, the second line is shown, and one mark
is under the character that begins no expression. -/
theorem render_of_parse_unknown :
    let source := encode ['1', ' ', '+', '\r', '\n', ' ', 'é']
    let err : ParseError := .notAnExpression ⟨.ofLength 6 2, .unknown⟩
    let d : Document := { name := (Path.ofString "in.why").toString, content := source }
    let m : Marks := ⟨1, [' ', 'é'], 1, 1⟩
    Expr.parse source = .error (.error err) ∧ '\n' ∉ "in.why".toList ∧
      (render err.message (some err.span) d).splitOn '\n' = rows err.message d.name m ∧
      m.Shows source err.span ∧ decode? (err.span.slice source) = some ['é'] := by
  intro source err d m
  have hparse : Expr.parse source = .error (.error err) := by cbv
  have hpath : '\n' ∉ "in.why".toList := by decide
  have hm : marks source (LineIndex.ofBytes source) err.span = m := by cbv
  have hreport := render_of_parse hparse hpath
  dsimp only at hreport
  rw [hm] at hreport
  obtain ⟨hrows, -, -, -, -, -, hshows, hverbal⟩ := hreport
  exact ⟨hparse, hpath, hrows, hshows, hverbal (Or.inl rfl)⟩

end Arith.Report
