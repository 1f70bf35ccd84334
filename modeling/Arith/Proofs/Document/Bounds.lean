import Arith.Proofs.Document.Selection
import Arith.Proofs.Text.Codes

/-!
# Diagnostics inside the document

A document that an editor holds is a row of codes, and surrogates may stand among them. A place is
in the document if there is such a line and the line has so many units (`Position.LiesIn`). Where a
stretch of codes that breaks no line stands, there is one line with the units in front of it, those
of the stretch and those behind it (`exists_line`). So the place in front of the stretch is in the
document, and the place behind it is if the stretch is measured as it is written.

A surrogate is not: the two bytes of it that are to blame are read as two characters, while it has
one unit. So the diagnostic of a surrogate ends one unit behind the surrogate, which is in the
document unless the surrogate is the last code of its line (`handle_of_codes`).
-/

namespace Arith

open Utf8 Document
open Lexer (DigitRunsWithin digitRunsWithin_of_length)
open Arith.Parser

/-! ## Units of codes -/

/-- The number of UTF-16 units of some codes, of which a surrogate has one. -/
def codeUnits (codes : List Nat) : Nat :=
  codes.foldr (fun code n => (if code < 0x10000 then 1 else 2) + n) 0

theorem codeUnits_cons (code : Nat) (codes : List Nat) :
    codeUnits (code :: codes) = codeUnits [code] + codeUnits codes := by
  simp [codeUnits]

theorem codeUnits_append (codes codes' : List Nat) :
    codeUnits (codes ++ codes') = codeUnits codes + codeUnits codes' := by
  induction codes with
  | nil => simp [codeUnits]
  | cons code codes ih =>
    rw [List.cons_append, codeUnits_cons, ih, codeUnits_cons code codes, Nat.add_assoc]

/-- Only where no code stands there are no units. -/
theorem codeUnits_eq_zero_iff (codes : List Nat) : codeUnits codes = 0 ↔ codes = [] := by
  cases codes with
  | nil => simp [codeUnits]
  | cons code codes =>
    simp only [codeUnits, List.foldr_cons, reduceCtorEq, iff_false]
    split <;> omega

/-- A text has as many units as its codes. -/
theorem codeUnits_toNat (text : List Char) : codeUnits (text.map Char.toNat) = utf16Length text :=
  List.foldr_map

theorem utf16Length_append (s t : List Char) :
    utf16Length (s ++ t) = utf16Length s + utf16Length t := by
  simp only [← codeUnits_toNat, List.map_append, codeUnits_append]

theorem codeUnits_surrogate {code : Nat} (h : IsSurrogate code) : codeUnits [code] = 1 := by
  obtain ⟨-, hhi⟩ := h
  simp only [codeUnits, List.foldr_cons, List.foldr_nil]
  rw [if_pos (by omega)]

/-! ## Places in a document -/

namespace Position

/-- The order of places: by lines, and inside a line by units. -/
instance : LE Position := ⟨fun p q => p.line < q.line ∨ p.line = q.line ∧ p.unit ≤ q.unit⟩

/-- The document has the line of a place, and the line has so many units. -/
def LiesIn (codes : List Nat) (p : Position) : Prop :=
  ∃ l, (Line.split 0x0A 0x0D codes)[p.line]? = some l ∧ p.unit ≤ codeUnits l.text

/-- The document has the line of a place, but the place is one unit behind the end of the line. -/
def Oversteps (codes : List Nat) (p : Position) : Prop :=
  ∃ l, (Line.split 0x0A 0x0D codes)[p.line]? = some l ∧ p.unit = codeUnits l.text + 1

theorem not_liesIn_of_oversteps {codes : List Nat} {p : Position} (h : p.Oversteps codes) :
    ¬ p.LiesIn codes := by
  rintro ⟨l, hl, hle⟩
  obtain ⟨l', hl', hunit⟩ := h
  rw [hl, Option.some.injEq] at hl'
  subst hl'
  omega

end Position

/-- Behind some codes, the line that they stand in has ended. -/
def LineEnded (codes : List Nat) : Prop := ∀ code ∈ codes.head?, code = 0x0A ∨ code = 0x0D

/-- Only a line feed begins with the byte of one, also among codes. -/
theorem head?_of_encodeCodes {codes : List Nat} (hcodes : ∀ code ∈ codes, code < 0x110000)
    (h : (encodeCodes codes).head? = some 0x0A) : codes.head? = some 0x0A := by
  cases codes with
  | nil => cases h
  | cons code codes =>
    rw [encodeCodes_cons] at h
    rcases cases_of_code (hcodes code List.mem_cons_self) with hsurrogate | ⟨c, rfl⟩
    · rw [encodeCode_surrogate hsurrogate] at h
      cases h
    · have hne : encodeCode c.toNat ≠ [] := List.ne_nil_of_length_pos (length_encodeCode_pos c)
      rw [List.head?_append_of_ne_nil _ hne] at h
      have hhead : (encode [c]).head? = some 0x0A := by
        rwa [encode_cons, encode_nil, List.append_nil]
      cases head?_of_encode hhead
      rfl

section

variable {codes tail about more : List Nat} {before shown : List Char} {front : List (Line Char)}
  {l : Line Nat} {below : List (Line Nat)} {bytes left : Bytes}

/-- The lines of codes that begin with a text are cut where those of the text are. -/
theorem split_of_codes (h : codes = before.map Char.toNat ++ tail)
    (htorn : before.getLast? = some '\r' → tail.head? ≠ some 0x0A)
    (hfront : Line.split '\n' '\r' before = front ++ [⟨shown, []⟩])
    (hl : Line.split 0x0A 0x0D tail = l :: below) :
    Line.split 0x0A 0x0D codes
      = front.map (Line.map Char.toNat) ++ Line.prepend (shown.map Char.toNat) l :: below := by
  have hinjective : Function.Injective Char.toNat := fun c d => Char.toNat_inj.1
  have hbefore := Line.split_map hinjective (show '\r' ≠ '\n' by decide) before
  rw [hfront, List.map_append] at hbefore
  rw [h]
  refine Line.split_append (show 0x0D ≠ 0x0A by decide) ?_ hbefore hl
  rintro ⟨hlast, hhead⟩
  rw [List.getLast?_map] at hlast
  obtain ⟨c, hc, hreturn⟩ := Option.map_eq_some_iff.1 hlast
  obtain rfl : c = '\r' := Char.toNat_inj.1 hreturn
  exact htorn hc hhead

/--
**A stretch of codes that breaks no line stands in one line**, and places are counted in that line:
in front of the stretch by the units that the line has there, behind some of its bytes by as many
more units as these are read as.
-/
theorem exists_line (hcodes : ∀ code ∈ codes, code < 0x110000)
    (h : codes = before.map Char.toNat ++ (about ++ more))
    (hplain : ∀ code ∈ about, Line.Plain 0x0A 0x0D code)
    (htorn : before.getLast? = some '\r' → (about ++ more).head? ≠ some 0x0A)
    (hbytes : encodeCodes about = bytes ++ left) (hunbroken : ∀ b ∈ bytes, Line.Plain 0x0A 0x0D b) :
    ∃ line ahead behind l, (Line.split 0x0A 0x0D codes)[line]? = some l ∧
      codeUnits l.text = ahead + (codeUnits about + behind) ∧ (behind = 0 ↔ LineEnded more) ∧
      Position.ofOffset (encodeCodes codes) (LineIndex.ofBytes (encodeCodes codes))
        (encode before).length = ⟨line, ahead⟩ ∧
      Position.ofOffset (encodeCodes codes) (LineIndex.ofBytes (encodeCodes codes))
        ((encode before).length + bytes.length)
          = ⟨line, ahead + utf16Length (decodeLossy bytes)⟩ := by
  obtain ⟨front, shown, hfront, -⟩ :=
    Line.exists_split_eq_concat (show '\r' ≠ '\n' by decide) before
  obtain ⟨l, below, hmore⟩ := Line.exists_split_eq_cons 0x0A 0x0D more
  have habout : Line.split 0x0A 0x0D (about ++ more) = Line.prepend about l :: below := by
    rw [Line.split_append_plain hplain, hmore]
    rfl
  have hsplit := split_of_codes h htorn hfront habout
  have hline := codeUnits_append (shown.map Char.toNat) (about ++ l.text)
  rw [codeUnits_append about, codeUnits_toNat] at hline
  -- the same places among the bytes
  have htail : encodeCodes (about ++ more) = bytes ++ (left ++ encodeCodes more) := by
    rw [encodeCodes_append, hbytes, List.append_assoc]
  have hsource : encodeCodes codes = encode before ++ (bytes ++ (left ++ encodeCodes more)) := by
    rw [h, encodeCodes_append, encodeCodes_map_toNat, htail]
  have hcut : before.getLast? = some '\r' →
      (bytes ++ (left ++ encodeCodes more)).head? ≠ some 0x0A := by
    rw [← htail]
    refine fun hlast hhead => htorn hlast (head?_of_encodeCodes (fun code hcode => ?_) hhead)
    exact hcodes code (h ▸ List.mem_append_right _ hcode)
  have hstart := ofOffset_behind hsource hcut hfront
  have hstop := ofOffset_eq hsource hunbroken hcut hfront
  rw [decodeLossy_encode_append, utf16Length_append] at hstop
  refine ⟨front.length, utf16Length shown, codeUnits l.text,
    Line.prepend (shown.map Char.toNat) (Line.prepend about l), ?_, hline, ?_, hstart, hstop⟩
  · rw [hsplit, ← List.length_map (Line.map Char.toNat), List.getElem?_append_right (Nat.le_refl _),
      Nat.sub_self, List.getElem?_cons_zero]
  · rw [codeUnits_eq_zero_iff]
    exact Line.text_eq_nil_iff (by decide) hmore

end

/-! ## Diagnostics in a document -/

/-- The first surrogate of a document is the last code of its line. -/
def SurrogateEndsLine (codes : List Nat) : Prop :=
  ∃ code rest, codes.dropWhile (¬ IsSurrogate ·) = code :: rest ∧ LineEnded rest

/-- A parse error is about a surrogate behind which its line has ended. -/
def Overruns (codes : List Nat) : ParseError → Prop
  | .token (.text _) => SurrogateEndsLine codes
  | _ => False

/-- A diagnostic begins in a document, goes forward, and ends there or one unit behind a line. -/
structure Diagnostic.Bounded (d : Diagnostic) (codes : List Nat) (overruns : Prop) : Prop where
  start_le_stop : d.start ≤ d.stop
  start_liesIn : d.start.LiesIn codes
  stop_liesIn : ¬ overruns → d.stop.LiesIn codes
  stop_oversteps : overruns → d.stop.Oversteps codes

theorem surrogateEndsLine_iff {codes rest : List Nat} {before : List Char} {code : Nat}
    (h : codes = before.map Char.toNat ++ code :: rest) (hcode : IsSurrogate code) :
    SurrogateEndsLine codes ↔ LineEnded rest := by
  have hfirst : codes.dropWhile (¬ IsSurrogate ·) = code :: rest := by
    rw [h, List.dropWhile_append_of_pos, List.dropWhile_cons_of_neg (by simpa using hcode)]
    intro n hn
    obtain ⟨c, -, rfl⟩ := List.mem_map.1 hn
    have hcharacter := toNat_not_surrogate c
    have : ¬ IsSurrogate c.toNat := by
      unfold IsSurrogate
      omega
    exact decide_eq_true this
  unfold SurrogateEndsLine
  rw [hfirst]
  constructor
  · rintro ⟨_, _, heq, hended⟩
    cases heq
    exact hended
  · exact fun hended => ⟨code, rest, rfl, hended⟩

/-- A diagnostic that begins and ends in one line is bounded as its units are. -/
theorem Diagnostic.bounded_of_line {d : Diagnostic} {codes : List Nat} {overruns : Prop}
    {line ahead count : Nat} {l : Line Nat}
    (hl : (Line.split 0x0A 0x0D codes)[line]? = some l) (hstart : d.start = ⟨line, ahead⟩)
    (hstop : d.stop = ⟨line, ahead + count⟩) (hahead : ahead ≤ codeUnits l.text)
    (hin : ¬ overruns → ahead + count ≤ codeUnits l.text)
    (hover : overruns → ahead + count = codeUnits l.text + 1) : d.Bounded codes overruns where
  start_le_stop := by
    rw [hstart, hstop]
    exact Or.inr ⟨rfl, Nat.le_add_right _ _⟩
  start_liesIn := by
    rw [hstart]
    exact ⟨l, hl, hahead⟩
  stop_liesIn h := by
    rw [hstop]
    exact ⟨l, hl, hin h⟩
  stop_oversteps h := by
    rw [hstop]
    exact ⟨l, hl, hover h⟩

section

variable {codes : List Nat} (hcodes : ∀ code ∈ codes, code < 0x110000) {message : String}
  {span : Span} {cause? : Option ErrorKind} {before : List Char}

include hcodes

/-- Characters that break no line are measured as they are written. -/
theorem bounded_of_text {selected : List Char} {tail : Bytes}
    (hsource : encodeCodes codes = encode before ++ (encode selected ++ tail))
    (hspan : span = .ofLength (encode before).length (encode selected).length)
    (hselected : ∀ c ∈ selected, isBlank c = false)
    (hlast : selected = [] → ∀ c ∈ before.getLast?, isBlank c = false) :
    (Diagnostic.ofError (encodeCodes codes) message span cause?).Bounded codes False := by
  subst hspan
  obtain ⟨rest, hbehind, hrest⟩ := exists_rest_of_encodeCodes hcodes hsource
  obtain ⟨more, rfl, -⟩ := exists_rest_of_encodeCodes
    (fun code hcode => hcodes code (hbehind ▸ List.mem_append_right _ hcode)) hrest.symm
  have hunbroken : ∀ c ∈ selected, Line.Plain '\n' '\r' c :=
    fun c hc => Line.plain_of_isBlank (hselected c hc)
  have hplain : ∀ code ∈ selected.map Char.toNat, Line.Plain 0x0A 0x0D code := by
    intro code hcode
    obtain ⟨c, hc, rfl⟩ := List.mem_map.1 hcode
    obtain ⟨hlf, hcr⟩ := hunbroken c hc
    exact ⟨fun h => hlf (Char.toNat_inj.1 h), fun h => hcr (Char.toNat_inj.1 h)⟩
  have htorn : before.getLast? = some '\r' →
      (selected.map Char.toNat ++ more).head? ≠ some 0x0A := by
    intro hreturn
    -- a line feed is white space and begins no selection, and no empty one is behind white space
    cases selected with
    | nil => exact absurd (hlast rfl _ hreturn) (by decide)
    | cons c selected => exact fun hhead => (hplain _ List.mem_cons_self).1 (Option.some.inj hhead)
  have hbytes : encodeCodes (selected.map Char.toNat) = encode selected ++ [] := by
    rw [encodeCodes_map_toNat, List.append_nil]
  obtain ⟨line, ahead, behind, l, hl, hunits, -, hstart, hstop⟩ :=
    exists_line hcodes hbehind hplain htorn hbytes (plain_of_mem_encode hunbroken)
  rw [decodeLossy_encode, ← codeUnits_toNat] at hstop
  exact Diagnostic.bounded_of_line hl hstart hstop (by omega) (fun _ => by omega) nofun

/-- A surrogate is measured as two characters. -/
theorem bounded_of_surrogate {code : Nat} {rest : List Nat}
    (h : codes = before.map Char.toNat ++ code :: rest) (hcode : IsSurrogate code)
    (hspan : span = .ofLength (encode before).length 2) :
    (Diagnostic.ofError (encodeCodes codes) message span cause?).Bounded codes
      (SurrogateEndsLine codes) := by
  subst hspan
  -- the span covers two of the three bytes
  have hbytes : encodeCodes [code]
      = [0xED, continuation (code / 0x40)] ++ [continuation code] := by
    rw [encodeCodes_cons, encodeCode_surrogate hcode]
    rfl
  have hunbroken : ∀ b ∈ [0xED, continuation (code / 0x40)], Line.Plain 0x0A 0x0D b := by
    refine List.forall_mem_cons.2 ⟨plain_of_le (by decide), List.forall_mem_singleton.2 ?_⟩
    exact plain_of_le (by rw [toNat_continuation]; exact Nat.le_add_right _ _)
  have hplain : ∀ n ∈ [code], Line.Plain 0x0A 0x0D n := by
    obtain ⟨hlo, -⟩ := hcode
    refine List.forall_mem_singleton.2 ⟨?_, ?_⟩ <;> omega
  have htorn : before.getLast? = some '\r' → ([code] ++ rest).head? ≠ some 0x0A :=
    fun _ hhead => (hplain code List.mem_cons_self).1 (Option.some.inj hhead)
  obtain ⟨line, ahead, behind, l, hl, hunits, hended, hstart, hstop⟩ :=
    exists_line hcodes h hplain htorn hbytes hunbroken
  rw [codeUnits_surrogate hcode] at hunits
  rw [decodeLossy_surrogate hcode, show utf16Length [replacement, replacement] = 2 from rfl]
    at hstop
  refine Diagnostic.bounded_of_line hl hstart hstop (by omega) (fun hin => ?_) (fun hover => ?_)
  · rw [surrogateEndsLine_iff h hcode, ← hended] at hin
    omega
  · rw [surrogateEndsLine_iff h hcode, ← hended] at hover
    omega

/-- **The diagnostic of a parse error is in the document**, but for the end of a surrogate behind
which its line has ended. -/
theorem bounded_of_located {err : ParseError} (h : Located (encodeCodes codes) err) :
    (Diagnostic.ofError (encodeCodes codes) message err.span cause?).Bounded codes
      (Overruns codes err) := by
  cases h with
  | @token _ t before selected rest herr _ hstands _ hne hblank =>
    rcases herr with rfl | rfl
    · exact bounded_of_text hcodes hstands.source_eq hstands.span_eq hblank
        (fun hnil => absurd hnil hne)
    · exact bounded_of_text hcodes hstands.source_eq hstands.span_eq hblank
        (fun hnil => absurd hnil hne)
  | @literal lit span before rest hstands =>
    exact bounded_of_text hcodes hstands.source_eq hstands.span_eq
      (fun c hc => Lexer.Literal.isBlank_of_mem hc) (fun hnil => absurd hnil lit.text_ne_nil)
  | @malformed before bad m hsource hbad =>
    obtain ⟨rest, hbehind, rfl⟩ := exists_rest_of_encodeCodes hcodes hsource
    obtain ⟨code, rest, rfl, hcode, rfl⟩ := exists_surrogate_of_frontFault
      (fun code hcode => hcodes code (hbehind ▸ List.mem_append_right _ hcode)) hbad
    exact bounded_of_surrogate hcodes hbehind hcode rfl
  | @ended tokens before rest _ hsource hend hlast =>
    have hspan : (ParseError.unexpectedEnd (endOf tokens)).span
        = .ofLength (encode before).length (encode []).length := by
      rw [ParseError.span, hend]
      rfl
    have hempty : encodeCodes codes = encode before ++ (encode [] ++ rest) := hsource
    exact bounded_of_text hcodes hempty hspan (List.forall_mem_nil _) (fun _ => hlast)

end

/--
**An editor is sent diagnostics that lie in its document**, whatever codes the document holds. They
begin at a place of the document and go forward, and they end at a place of the document unless they
are about a surrogate behind which its line has ended: these end one unit behind that line.
-/
theorem handle_of_codes {s : Session} {event : Event} {uri : String} {codes : List Nat}
    (hevent : event = .opened uri ∨ event = .changed uri)
    (hcodes : ∀ code ∈ codes, code < 0x110000) (htext : s.textOf uri = encodeCodes codes)
    (hruns : DigitRunsWithin Numeral.digitLimit (encodeCodes codes)) :
    ∃ diagnostics,
      Session.handle event s = .ok () { s with sent := s.sent ++ [⟨uri, diagnostics⟩] } ∧
      ((∃ e, Expr.parse (encodeCodes codes) = .ok e ∧ diagnostics = []) ∨
        ∃ err d, Expr.parse (encodeCodes codes) = .error (.error err) ∧ diagnostics = [d] ∧
          d.Bounded codes (Overruns codes err)) := by
  have hhandle : Session.handle event s = Session.validate uri s := by
    rcases hevent with rfl | rfl
    · rfl
    · rfl
  rw [hhandle, validate_eq, htext]
  unfold Diagnostic.ofBytes
  rcases Expr.parse_of_digitRunsWithin hruns with ⟨e, hparse⟩ | ⟨err, hparse⟩
  · rw [hparse]
    exact ⟨[], rfl, Or.inl ⟨e, rfl, rfl⟩⟩
  · rw [hparse]
    exact ⟨_, rfl, Or.inr ⟨err, _, rfl, rfl, bounded_of_located hcodes (located_of_parse hparse)⟩⟩

/-- In `1 +`, a line feed and a surrogate in front of `2`, the diagnostic ends in the line. -/
theorem handle_of_codes_inside :
    let codes := [0x31, 0x2B, 0x0A, 0xDE00, 0x32]
    let s : Session := { textOf := fun _ => encodeCodes codes }
    Event.changed "in.why" = .changed "in.why" ∧ (∀ code ∈ codes, code < 0x110000) ∧
      s.textOf "in.why" = encodeCodes codes ∧
      DigitRunsWithin Numeral.digitLimit (encodeCodes codes) ∧
      ∃ d : Diagnostic, Session.handle (.changed "in.why") s
          = .ok () { s with sent := [⟨"in.why", [d]⟩] } ∧
        d.start ≤ d.stop ∧ d.start.LiesIn codes ∧ d.stop.LiesIn codes := by
  intro codes s
  have hcodes : ∀ code ∈ codes, code < 0x110000 := by decide
  have hruns : DigitRunsWithin Numeral.digitLimit (encodeCodes codes) :=
    digitRunsWithin_of_length (by decide)
  have hparse : Expr.parse (encodeCodes codes)
      = .error (.error (.token (.text (.ofMalformed 3 (.badContinuation 1 0xB8))))) := by cbv
  have hinside : ¬ SurrogateEndsLine codes := by
    have hsplit : codes = ['1', '+', '\n'].map Char.toNat ++ 0xDE00 :: [0x32] := rfl
    rw [surrogateEndsLine_iff hsplit (by decide)]
    intro hended
    exact absurd (hended 0x32 rfl) (by decide)
  obtain ⟨diagnostics, hhandle, hdiagnostics⟩ :=
    handle_of_codes (s := s) (Or.inr (rfl : Event.changed "in.why" = _)) hcodes rfl hruns
  refine ⟨rfl, hcodes, rfl, hruns, ?_⟩
  rcases hdiagnostics with ⟨e, hok, -⟩ | ⟨err, d, herr, rfl, hbounded⟩
  · rw [hparse] at hok
    cases hok
  · rw [hparse] at herr
    cases herr
    exact ⟨d, hhandle, hbounded.start_le_stop, hbounded.start_liesIn, hbounded.stop_liesIn hinside⟩

/-- Where a document is just a surrogate, the diagnostic ends behind its only line. -/
theorem not_liesIn_surrogate :
    let codes := [0xD800]
    let s : Session := { textOf := fun _ => encodeCodes codes }
    (∀ code ∈ codes, code < 0x110000) ∧
      DigitRunsWithin Numeral.digitLimit (encodeCodes codes) ∧
      ∃ d : Diagnostic, Session.handle (.opened "in.why") s
          = .ok () { s with sent := [⟨"in.why", [d]⟩] } ∧ ¬ d.stop.LiesIn codes := by
  intro codes s
  let err : ParseError := .token (.text (.ofMalformed 0 (.badContinuation 1 0xA0)))
  have hcodes : ∀ code ∈ codes, code < 0x110000 := by decide
  have hparse : Expr.parse (encodeCodes codes) = .error (.error err) := by cbv
  have hdiagnostics : Diagnostic.ofBytes (s.textOf "in.why")
      = .ok [Diagnostic.ofParseError (encodeCodes codes) err] := by
    unfold Diagnostic.ofBytes
    rw [hparse]
  have hhandle := validate_eq "in.why" s
  rw [hdiagnostics] at hhandle
  have hsplit : codes = ([] : List Char).map Char.toNat ++ 0xD800 :: [] := rfl
  have hended : LineEnded [] := by simp [LineEnded]
  have hoverruns : Overruns codes err := (surrogateEndsLine_iff hsplit (by decide)).2 hended
  refine ⟨hcodes, digitRunsWithin_of_length (by decide), _, hhandle, ?_⟩
  exact Position.not_liesIn_of_oversteps
    ((bounded_of_located hcodes (located_of_parse hparse)).stop_oversteps hoverruns)

end Arith
