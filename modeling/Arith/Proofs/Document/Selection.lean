import Arith.Document.Session
import Arith.Proofs.Document.Lines
import Arith.Proofs.Expr.Fault
import Arith.Proofs.Expr.Located
import Arith.Proofs.Text.Lossy

/-!
# What an editor selects

An editor shows characters, while errors are placed by bytes. It counts the lines of its text, and
inside a line units of UTF-16 (`Position.place?`). Every place of the text that is not inside a
break is found again by its position (`place?_ofOffset`), so that a diagnostic selects the
characters that its error is about (`handle_of_text`).
-/

namespace Arith

open Utf8 Document
open Lexer (DigitRunsWithin digitRunsWithin_of_length)
open Arith.Parser

/-! ## Places by position -/

/-- The place in a line that has so many units in front of it, unless that is inside a character. -/
def unitPlace? : List Char → Nat → Option Nat
  | [], units => if units = 0 then some 0 else none
  | c :: rest, units =>
    if units = 0 then some 0
    else if units < utf16Length [c] then none
    else (unitPlace? rest (units - utf16Length [c])).map (· + 1)

/-- The place in a text that an editor understands by a position. -/
def Position.place? (text : List Char) (p : Position) : Option Nat :=
  let ls := Line.split '\n' '\r' text
  match ls[p.line]? with
  | none => none
  | some l => (unitPlace? l.text p.unit).map (Line.width (ls.take p.line) + ·)

/-- An editor that shows a text selects characters of it for a diagnostic, behind others. -/
def Diagnostic.Selects (d : Diagnostic) (text before selected : List Char) : Prop :=
  ∃ rest, text = before ++ (selected ++ rest) ∧ d.start.place? text = some before.length ∧
    d.stop.place? text = some (before ++ selected).length

theorem utf16Length_cons (c : Char) (text : List Char) :
    utf16Length (c :: text) = utf16Length [c] + utf16Length text := by
  simp [utf16Length]

theorem utf16Length_singleton_pos (c : Char) : 0 < utf16Length [c] := by
  unfold utf16Length
  simp only [List.foldr_cons, List.foldr_nil]
  split <;> omega

/-- The units of a text lead behind it. -/
theorem unitPlace?_append (text rest : List Char) :
    unitPlace? (text ++ rest) (utf16Length text) = some text.length := by
  induction text with
  | nil => cases rest <;> rfl
  | cons c text ih =>
    have hpos := utf16Length_singleton_pos c
    rw [utf16Length_cons, List.cons_append, unitPlace?, if_neg (by omega), if_neg (by omega),
      Nat.add_sub_cancel_left, ih]
    rfl

/-- The position behind a text, and behind bytes that break no line, is in the last line of the
text. -/
theorem ofOffset_eq {source bytes tail : Bytes} {before shown : List Char}
    {front : List (Line Char)} (hsource : source = encode before ++ (bytes ++ tail))
    (hplain : ∀ b ∈ bytes, Line.Plain 0x0A 0x0D b)
    (htorn : before.getLast? = some '\r' → (bytes ++ tail).head? ≠ some 0x0A)
    (hfront : Line.split '\n' '\r' before = front ++ [⟨shown, []⟩]) :
    Position.ofOffset source (LineIndex.ofBytes source) ((encode before).length + bytes.length)
      = ⟨front.length, utf16Length (decodeLossy (encode shown ++ bytes))⟩ := by
  obtain ⟨l, below, hl⟩ := Line.exists_split_eq_cons 0x0A 0x0D tail
  have hbytes : lines (bytes ++ tail) = Line.prepend bytes l :: below := by
    rw [lines, Line.split_append_plain hplain, hl]
    rfl
  obtain ⟨hlines, hwidth⟩ := lines_of_text hsource htorn hfront hbytes
  rw [Line.prepend_prepend] at hlines
  have hshown : (Line.prepend (encode shown ++ bytes) l).text = (encode shown ++ bytes) ++ l.text :=
    rfl
  have hlocate : (LineIndex.ofBytes source).locate ((encode before).length + bytes.length)
      = (front.length, (encode shown ++ bytes).length) := by
    have hlength := congrArg List.length hshown
    rw [List.length_append, List.length_append] at hlength
    rw [locate_eq hlines (by omega) (by omega), List.length_map, List.length_append]
    exact congrArg (front.length, ·) (by omega)
  have hline : lineOf source (LineIndex.ofBytes source) front.length
      = (encode shown ++ bytes) ++ l.text := by
    rw [← hshown, ← lineOf_eq hlines, List.length_map]
  unfold Position.ofOffset
  rw [hlocate]
  dsimp only
  rw [hline, List.take_left]

/-- The position behind a text is in the last line of the text. -/
theorem ofOffset_behind {source tail : Bytes} {before shown : List Char} {front : List (Line Char)}
    (hsource : source = encode before ++ tail)
    (htorn : before.getLast? = some '\r' → tail.head? ≠ some 0x0A)
    (hfront : Line.split '\n' '\r' before = front ++ [⟨shown, []⟩]) :
    Position.ofOffset source (LineIndex.ofBytes source) (encode before).length
      = ⟨front.length, utf16Length shown⟩ := by
  have hposition := ofOffset_eq (show source = encode before ++ ([] ++ tail) from hsource) nofun
    htorn hfront
  rwa [List.append_nil, decodeLossy_encode, List.length_nil, Nat.add_zero] at hposition

/-- **A place is found again by its position**, if it is not inside a break. -/
theorem place?_ofOffset {text before rest : List Char} (htext : text = before ++ rest)
    (htorn : ¬ Line.Torn '\n' '\r' before rest) :
    (Position.ofOffset (encode text) (LineIndex.ofBytes (encode text))
      (encode before).length).place? text = some before.length := by
  obtain ⟨above, shown, hbefore, -⟩ :=
    Line.exists_split_eq_concat (show '\r' ≠ '\n' by decide) before
  obtain ⟨l, below, hrest⟩ := Line.exists_split_eq_cons '\n' '\r' rest
  have hsplit : Line.split '\n' '\r' text = above ++ Line.prepend shown l :: below := by
    rw [htext]
    exact Line.split_append (by decide) htorn hbefore hrest
  have hlength : before.length = Line.width above + shown.length := by
    rw [← Line.width_split (show '\r' ≠ '\n' by decide) before, hbefore, Line.width_append]
    simp [Line.whole]
  have hsource : encode text = encode before ++ encode rest := by rw [htext, encode_append]
  have hposition := ofOffset_behind hsource
    (fun hlast hhead => htorn ⟨hlast, head?_of_encode hhead⟩) hbefore
  unfold Position.place?
  rw [hposition]
  dsimp only
  rw [hsplit, List.getElem?_append_right (Nat.le_refl _), Nat.sub_self, List.getElem?_cons_zero,
    List.take_left]
  dsimp only
  rw [Line.prepend, unitPlace?_append, hlength]
  rfl

/-! ## What an error is about -/

/-- The characters of a text that a parse error is about, and those in front of them. -/
def Concerns (text before selected : List Char) : ParseError → Prop
  | .notAnExpression t | .leftOver t =>
    .token t ∈ (Lexer.ofBytes (encode text)).pulls ∧ t.text? (encode text) = some selected ∧
      t.span.start = (encode before).length
  | .token (.outOfRange literal span) => selected = literal ∧ span.start = (encode before).length
  | .token (.text _) => False
  | .unexpectedEnd offset => selected = [] ∧ offset = (encode before).length ∧
      ∃ tokens, (Lexer.ofBytes (encode text)).pulls = tokens.map .token ++ [.finished] ∧
        offset = endOf tokens

/-- The characters of a text between two places that are not inside breaks are selected. -/
theorem selects_ofError {text before selected rest : List Char} {message : String} {span : Span}
    {cause? : Option ErrorKind} (htext : text = before ++ (selected ++ rest))
    (hspan : span = .ofLength (encode before).length (encode selected).length)
    (hstart : ¬ Line.Torn '\n' '\r' before (selected ++ rest))
    (hstop : ¬ Line.Torn '\n' '\r' (before ++ selected) rest) :
    (Diagnostic.ofError (encode text) message span cause?).Selects text before selected := by
  subst hspan
  refine ⟨rest, htext, place?_ofOffset htext hstart, ?_⟩
  have hplace := place?_ofOffset (htext.trans (List.append_assoc ..).symm) hstop
  rw [encode_append, List.length_append] at hplace
  exact hplace

/-- White space is not torn from what is none. -/
theorem not_torn_of_head {s t : List Char} (h : ∀ c ∈ t.head?, isBlank c = false) :
    ¬ Line.Torn '\n' '\r' s t := by
  rintro ⟨-, hhead⟩
  exact absurd (h _ hhead) (by decide)

theorem not_torn_of_last {s t : List Char} (h : ∀ c ∈ s.getLast?, isBlank c = false) :
    ¬ Line.Torn '\n' '\r' s t := by
  rintro ⟨hlast, -⟩
  exact absurd (h _ hlast) (by decide)

/-- The characters of a token or a literal are selected. -/
theorem selects_of_standsAt {text before selected : List Char} {rest : Bytes} {message : String}
    {span : Span} {cause? : Option ErrorKind}
    (hstands : StandsAt (encode text) span before selected rest) (hne : selected ≠ [])
    (hblank : ∀ c ∈ selected, isBlank c = false) :
    (Diagnostic.ofError (encode text) message span cause?).Selects text before selected := by
  obtain ⟨more, htext, hmore⟩ := exists_rest_of_encode hstands.source_eq
  obtain ⟨after, rfl, -⟩ := exists_rest_of_encode hmore.symm
  refine selects_ofError htext hstands.span_eq (not_torn_of_head ?_) (not_torn_of_last ?_)
  · intro c hc
    rw [List.head?_append_of_ne_nil _ hne] at hc
    exact hblank c (List.mem_of_mem_head? hc)
  · intro c hc
    rw [List.getLast?_append_of_ne_nil _ hne] at hc
    exact hblank c (List.mem_of_getLast? hc)

/-- **The diagnostic of a parse error in an encoded text selects what the error is about.** -/
theorem exists_selects {text : List Char} {err : ParseError} (h : Located (encode text) err)
    (message : String) (cause? : Option ErrorKind) :
    ∃ before selected,
      (Diagnostic.ofError (encode text) message err.span cause?).Selects text before selected ∧
        Concerns text before selected err := by
  cases h with
  | @token _ t before selected rest herr hpulled hstands _ hne hblank =>
    have htext : t.text? (encode text) = some selected := by
      rw [Token.text?, hstands.slice_eq, decode?_encode]
    have hstart : t.span.start = (encode before).length := congrArg Span.start hstands.span_eq
    rcases herr with rfl | rfl
    · exact ⟨before, selected, selects_of_standsAt hstands hne hblank, hpulled, htext, hstart⟩
    · exact ⟨before, selected, selects_of_standsAt hstands hne hblank, hpulled, htext, hstart⟩
  | @literal lit span before rest hstands =>
    have hblank : ∀ c ∈ lit.text, isBlank c = false := fun c hc => Lexer.Literal.isBlank_of_mem hc
    exact ⟨before, lit.text, selects_of_standsAt hstands lit.text_ne_nil hblank, rfl,
      congrArg Span.start hstands.span_eq⟩
  | @malformed before bad m hsource hbad =>
    -- an encoded text has no malformed bytes
    obtain ⟨rest, -, rfl⟩ := exists_rest_of_encode hsource
    rw [frontFault?_encode] at hbad
    cases hbad
  | @ended tokens before rest hpulls hsource hend hlast =>
    obtain ⟨after, htext, -⟩ := exists_rest_of_encode hsource
    have hspan : (ParseError.unexpectedEnd (endOf tokens)).span
        = .ofLength (encode before).length (encode []).length := by
      rw [ParseError.span, hend]
      rfl
    refine ⟨before, [], ?_, rfl, hend, tokens, hpulls, rfl⟩
    refine selects_ofError htext hspan (not_torn_of_last hlast) (not_torn_of_last ?_)
    rwa [List.append_nil]

/-! ## Notices -/

theorem isA_token (e : TokenError) : e.kind.isA .token = true := by
  cases e <;> simp [TokenError.kind, ErrorKind.isA, ErrorKind.lineage, ErrorKind.parent?]

/-- All token errors have the code of token errors. -/
theorem codeOf_eq_lex_iff (cause? : Option TokenError) :
    Diagnostic.codeOf (cause?.map TokenError.kind) = .lex ↔ ∃ e, cause? = some e := by
  cases cause? with
  | none => simp [Diagnostic.codeOf]
  | some e =>
    have hcode : Diagnostic.codeOf (some e.kind) = .lex := if_pos (isA_token e)
    exact ⟨fun _ => ⟨e, rfl⟩, fun _ => hcode⟩

/-- One notice is sent, unless the tokens of the document cannot be read. -/
theorem validate_eq (uri : String) (s : Session) :
    Session.validate uri s = match Diagnostic.ofBytes (s.textOf uri) with
      | .ok diagnostics => .ok () { s with sent := s.sent ++ [⟨uri, diagnostics⟩] }
      | .error f => .error f s := by
  unfold Session.validate
  show EStateM.bind EStateM.get _ s = _
  unfold EStateM.bind EStateM.get
  dsimp only
  cases Diagnostic.ofBytes (s.textOf uri) <;> rfl

/--
**An editor is sent one notice for every event, and selects what is wrong.** The notice has no
diagnostic if the text is an expression, and one if it is not. The editor selects the characters of
the token or of the literal that the error is about, or nothing right behind the last token if an
operand is missing. Lines end in any of the three ways, and characters may take two units.
-/
theorem handle_of_text {s : Session} {event : Event} {uri : String} {text : List Char}
    (hevent : event = .opened uri ∨ event = .changed uri) (htext : s.textOf uri = encode text)
    (hruns : DigitRunsWithin Numeral.digitLimit (encode text)) :
    ∃ diagnostics,
      Session.handle event s = .ok () { s with sent := s.sent ++ [⟨uri, diagnostics⟩] } ∧
      ((∃ e, Expr.parse (encode text) = .ok e ∧ diagnostics = []) ∨
        ∃ err d, Expr.parse (encode text) = .error (.error err) ∧ diagnostics = [d] ∧
          d.message = err.message ∧ (d.code = .lex ↔ ∃ e, err.cause? = some e) ∧
          ∃ before selected, d.Selects text before selected ∧ Concerns text before selected err)
    := by
  have hhandle : Session.handle event s = Session.validate uri s := by
    rcases hevent with rfl | rfl
    · rfl
    · rfl
  rw [hhandle, validate_eq, htext]
  unfold Diagnostic.ofBytes
  rcases Expr.parse_of_digitRunsWithin hruns with ⟨e, hparse⟩ | ⟨err, hparse⟩
  · rw [hparse]
    exact ⟨[], rfl, Or.inl ⟨e, rfl, rfl⟩⟩
  · rw [hparse]
    refine ⟨_, rfl, Or.inr ⟨err, _, rfl, rfl, rfl, codeOf_eq_lex_iff err.cause?, ?_⟩⟩
    exact exists_selects (located_of_parse hparse) err.message _

/-- In `1 +`, a carriage return with a line feed, and ` 😀`, the character on the second line is
selected, which takes two units. -/
theorem handle_of_text_astral :
    let text := ['1', ' ', '+', '\r', '\n', ' ', '😀']
    let s : Session := { textOf := fun _ => encode text }
    Event.opened "in.why" = .opened "in.why" ∧ s.textOf "in.why" = encode text ∧
      DigitRunsWithin Numeral.digitLimit (encode text) ∧
      ∃ d : Diagnostic, Session.handle (.opened "in.why") s
          = .ok () { s with sent := [⟨"in.why", [d]⟩] } ∧
        d.code ≠ .lex ∧ ∃ before : List Char, d.Selects text before ['😀'] := by
  intro text s
  have hruns : DigitRunsWithin Numeral.digitLimit (encode text) :=
    digitRunsWithin_of_length (by decide)
  have hparse : Expr.parse (encode text)
      = .error (.error (.notAnExpression ⟨.ofLength 6 4, .unknown⟩)) := by cbv
  have htoken : Token.text? ⟨.ofLength 6 4, .unknown⟩ (encode text) = some ['😀'] := by cbv
  obtain ⟨diagnostics, hhandle, hdiagnostics⟩ :=
    handle_of_text (s := s) (Or.inl (rfl : Event.opened "in.why" = _)) rfl hruns
  refine ⟨rfl, rfl, hruns, ?_⟩
  rcases hdiagnostics with ⟨e, hok, -⟩ | ⟨err, d, herr, rfl, -, hcode, before, selected, hselects,
    hconcerns⟩
  · rw [hparse] at hok
    cases hok
  · rw [hparse] at herr
    cases herr
    refine ⟨d, hhandle, ?_, before, ?_⟩
    · rw [ne_eq, hcode]
      rintro ⟨e, he⟩
      cases he
    · have hselected : some ['😀'] = some selected := htoken.symm.trans hconcerns.2.1
      cases hselected
      exact hselects

end Arith
