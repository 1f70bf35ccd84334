import Arith.Proofs.Expr.Blame
import Arith.Proofs.Expr.Parse
import Arith.Proofs.Token.Classes

/-!
# Where parse errors are

Every parse error names a place of its source text (`located_of_parse`): a token, a literal that
does not fit in 64 bits, malformed bytes, or the end of the last token if an operand is missing. In
front of that place the text is always valid, so that the place stands between two characters. White
space is not part of any error, and the text that is named or follows does not begin with it.

This holds for all source texts, also for those in which a pull fails without a token error further
behind.
-/

namespace Arith

open Utf8 Lexer Arith.Parser
open Numeral (Literal)

/-! ## Token errors -/

namespace Lexer

/-- A token error about the front of some bytes, which stand at an offset. -/
inductive FailsAt (offset : Nat) : Bytes → TokenError → Prop where
  | malformed {valid : List Char} {bad : Bytes} {m : Malformed} (hbad : frontFault? bad = some m) :
      FailsAt offset (encode valid ++ bad)
        (.text (.ofMalformed (offset + (encode valid).length) m))
  | outOfRange {blanks : List Char} (lit : Literal) (rest : Bytes) :
      FailsAt offset (encode blanks ++ (encode lit.text ++ rest))
        (.outOfRange lit.text
          (.ofLength (offset + (encode blanks).length) (encode lit.text).length))

variable {shape : Shape} {start : Nat} {text : List Char} {behind ahead rest : Bytes}
  {e : TokenError} {l : Lexer}

/-- A token is refused because of malformed bytes behind it, or because its number is too big. -/
theorem cases_of_verdict_error (hcut : Cut shape text rest)
    (h : verdict shape start text rest = .error (.error e)) :
    (∃ m, frontFault? rest = some m ∧ e = .text (.ofMalformed (start + (encode text).length) m)) ∨
      ∃ lit : Literal, lit.text = text ∧ e = .outOfRange text (.ofLength start (encode text).length)
    := by
  unfold verdict at h
  cases hcut with
  | literal lit _ =>
    cases hfront : frontFault? rest with
    | some m =>
      rw [hfront] at h
      cases h
      exact Or.inl ⟨m, rfl, rfl⟩
    | none =>
      rw [hfront] at h
      dsimp only at h
      rw [numberOf_literal] at h
      split at h
      · cases h
      · split at h
        · cases h
        · cases h
          exact Or.inr ⟨lit, rfl, rfl⟩
  | name _ _ _ =>
    cases hfront : frontFault? rest with
    | some m =>
      rw [hfront] at h
      cases h
      exact Or.inl ⟨m, rfl, rfl⟩
    | none =>
      rw [hfront] at h
      cases h
  | single => cases h

theorem failsAt_of_next (h : l.Stands behind [] ahead) (hnext : l.next.1 = .error e) :
    FailsAt behind.length ahead e := by
  obtain ⟨blanks, ahead, rfl, hblanks, hstops, rfl | ⟨m, hm⟩ | ⟨shape, text, rest, rfl, hcut⟩⟩ :=
    exists_blanks ahead
  · rw [List.append_nil] at h
    obtain ⟨w, hend⟩ := next_end h hblanks
    rw [hend] at hnext
    cases hnext
  · obtain ⟨w, hmalformed⟩ := next_malformed_eq h hblanks hm
    rw [hmalformed] at hnext
    cases hnext
    exact FailsAt.malformed hm
  · have hpulled := next_cut h hblanks hstops hcut (behindBlanks_nil behind blanks)
      (by rw [heldBlanks_nil, List.nil_append])
    rw [List.length_append] at hpulled
    cases hverdict : verdict shape (behind.length + (encode blanks).length) text rest with
    | ok lexeme =>
      rw [hverdict] at hpulled
      obtain ⟨l', -, hpulled⟩ := hpulled
      rw [hpulled] at hnext
      cases hnext
    | error f =>
      rw [hverdict] at hpulled
      cases f with
      | fault f =>
        obtain ⟨l', -, hpulled⟩ := hpulled
        rw [hpulled] at hnext
        cases hnext
      | error e' =>
        obtain ⟨w, hpulled⟩ := hpulled
        rw [hpulled] at hnext
        cases hnext
        rcases cases_of_verdict_error hcut hverdict with ⟨m, hm, rfl⟩ | ⟨lit, rfl, rfl⟩
        · -- the token is part of the valid text in front of the malformed bytes
          have hvalid : FailsAt behind.length (encode (blanks ++ text) ++ rest) (.text
              (.ofMalformed (behind.length + (encode (blanks ++ text)).length) m)) :=
            FailsAt.malformed hm
          rwa [encode_append, List.append_assoc, List.length_append, ← Nat.add_assoc] at hvalid
        · exact FailsAt.outOfRange lit rest

end Lexer

/-! ## Parse errors -/

/-- A text stands at a span of a source, behind another text. -/
structure StandsAt (source : Bytes) (span : Span) (before text : List Char) (rest : Bytes) :
    Prop where
  source_eq : source = encode before ++ (encode text ++ rest)
  span_eq : span = .ofLength (encode before).length (encode text).length

/-- The bytes of the span are those of the text. -/
theorem StandsAt.slice_eq {source : Bytes} {span : Span} {before text : List Char} {rest : Bytes}
    (h : StandsAt source span before text rest) : span.slice source = encode text := by
  rw [h.source_eq, h.span_eq]
  exact between_append rfl rfl

/-- What a parse error is about, and where that is in its source text. -/
inductive Located (source : Bytes) : ParseError → Prop where
  | token {err : ParseError} {t : Token} {before text : List Char} {rest : Bytes}
      (herr : err = .notAnExpression t ∨ err = .leftOver t)
      (hpulled : .token t ∈ (ofBytes source).pulls)
      (hstands : StandsAt source t.span before text rest) (hdenotes : Denotes text t.lexeme)
      (hne : text ≠ []) (hblank : ∀ c ∈ text, isBlank c = false) : Located source err
  | literal {lit : Literal} {span : Span} {before : List Char} {rest : Bytes}
      (hstands : StandsAt source span before lit.text rest) :
      Located source (.token (.outOfRange lit.text span))
  | malformed {before : List Char} {bad : Bytes} {m : Malformed}
      (hsource : source = encode before ++ bad) (hbad : frontFault? bad = some m) :
      Located source (.token (.text (.ofMalformed (encode before).length m)))
  | ended {tokens : List Token} {before : List Char} {rest : Bytes}
      (hpulls : (ofBytes source).pulls = tokens.map .token ++ [.finished])
      (hsource : source = encode before ++ rest)
      (hend : endOf tokens = (encode before).length)
      (hlast : ∀ c ∈ before.getLast?, isBlank c = false) :
      Located source (.unexpectedEnd (endOf tokens))

/-- The tokens of a stream end where the last of them does. -/
theorem endOf_eq_stopOf (tokens : List Token) : endOf tokens = stopOf 0 tokens := by
  have hlast (offset : Nat) :
      tokens.getLast?.elim offset (fun t => t.span.stop) = stopOf offset tokens := by
    induction tokens generalizing offset with
    | nil => rfl
    | cons t tokens ih =>
      rw [stopOf, ← ih, List.getLast?_cons]
      cases tokens.getLast? <;> rfl
  exact hlast 0

/-- A pull that brings the end is the last one. -/
theorem pulls_of_finished {l : Lexer} {behind ahead : Bytes} (h : l.Stands behind [] ahead)
    (hfirst : l.pulls.head? = some .finished) : l.pulls = [.finished] := by
  have hbrings := brings_next h
  rw [head?_pulls] at hfirst
  generalize hnext : l.next = result at hbrings hfirst
  cases hbrings with
  | finished _ w => exact pulls_of_exhausted hnext rfl
  | _ => cases hfirst

/-- If an error is reported, the first pull did not fail. -/
theorem pullable_of_parse {source : Bytes} {err : ParseError}
    (h : Expr.parse source = .error (.error err)) : Pullable (ofBytes source).pulls := by
  unfold Expr.parse at h
  generalize (ofBytes source).pulls = stream at h ⊢
  cases stream with
  | nil => trivial
  | cons first rest =>
    cases first with
    | fault f => cases h
    | _ => trivial

/-- The token at the front of what is left stands there. -/
theorem standsAt_of_next {l : Lexer} {behind left : Bytes} {before : List Char} {t : Token}
    (h : l.Stands behind [] left) (hbehind : behind.length = (encode before).length)
    (hnext : l.next.1 = .token t) :
    ∃ (front text : List Char) (rest : Bytes),
      StandsAt (encode before ++ left) t.span front text rest ∧ Denotes text t.lexeme ∧
      text ≠ [] ∧ ∀ c ∈ text, isBlank c = false := by
  have hbrings := brings_next h
  generalize l.next = result at hbrings hnext
  cases hbrings with
  | @token blanks text shape t' rest behind' l' ht =>
    cases hnext
    refine ⟨before ++ blanks, text, rest, ⟨?_, ?_⟩, ht.denotes, ht.cut.ne_nil, ?_⟩
    · rw [encode_append, List.append_assoc]
    · rw [ht.span_eq, hbehind, encode_append, List.length_append]
    · intro c hc
      exact ht.isBlank_of_mem hc
  | _ => cases hnext

/-- **Every parse error is located in its source text.** -/
theorem located_of_parse {source : Bytes} {err : ParseError}
    (h : Expr.parse source = .error (.error err)) : Located source err := by
  have hpullable := pullable_of_parse h
  rw [Expr.parse_eq hpullable] at h
  cases hwhole : whole (facing [] (ofBytes source).pulls) with
  | ok e p =>
    rw [hwhole] at h
    cases h
  | error f p =>
    rw [hwhole] at h
    cases h
    obtain ⟨tokens, rest, hpulls, hblames⟩ := blames_of_whole hpullable hwhole
    obtain ⟨l', behind', left, hlexed, hl', hbehind', hrest⟩ :=
      exists_stands_of_pulls (stands_ofBytes source) hpulls
    obtain ⟨before, rfl, hstop, hlast⟩ := hlexed.exists_text
    rw [List.length_nil, Nat.zero_add] at hstop
    rw [List.length_nil, hstop] at hbehind'
    have hfirst := head?_pulls l'
    rw [hrest] at hfirst
    have hmem : ∀ pull ∈ rest, pull ∈ (ofBytes (encode before ++ left)).pulls := by
      intro pull hpull
      rw [hpulls]
      exact List.mem_append_right _ hpull
    rw [List.nil_append] at hblames
    generalize hfailure : Failure.error err = failure at hblames
    cases hblames with
    | notAnExpression t stream =>
      cases hfailure
      obtain ⟨front, text, rest, hstands, hdenotes, hne, hblank⟩ :=
        standsAt_of_next hl' hbehind' (Option.some.inj hfirst.symm)
      exact Located.token (Or.inl rfl) (hmem _ List.mem_cons_self) hstands hdenotes hne hblank
    | leftOver t stream =>
      cases hfailure
      obtain ⟨front, text, rest, hstands, hdenotes, hne, hblank⟩ :=
        standsAt_of_next hl' hbehind' (Option.some.inj hfirst.symm)
      exact Located.token (Or.inr rfl) (hmem _ List.mem_cons_self) hstands hdenotes hne hblank
    | held e stream =>
      cases hfailure
      have hfails := failsAt_of_next hl' (Option.some.inj hfirst.symm)
      cases hfails with
      | @malformed valid bad m hbad =>
        have hsource : encode before ++ (encode valid ++ bad)
            = encode (before ++ valid) ++ bad := by
          rw [encode_append, List.append_assoc]
        have hlocated := Located.malformed hsource hbad
        rwa [encode_append, List.length_append, ← hbehind'] at hlocated
      | @outOfRange blanks lit rest =>
        have hstands : StandsAt (encode before ++ (encode blanks ++ (encode lit.text ++ rest)))
            (.ofLength (behind'.length + (encode blanks).length) (encode lit.text).length)
            (before ++ blanks) lit.text rest := by
          constructor
          · rw [encode_append, List.append_assoc]
          · rw [encode_append, List.length_append, hbehind']
        exact Located.literal hstands
    | ended hend =>
      cases hfailure
      have hfinished : l'.pulls.head? = some .finished := by
        rw [hrest]
        rcases hend with hend | hend
        · rw [hend] at hfirst
          cases hfirst
        · exact hend
      rw [← hrest, pulls_of_finished hl' hfinished] at hpulls
      exact Located.ended hpulls rfl (by rw [endOf_eq_stopOf, hstop]) hlast
    | fault => cases hfailure

end Arith
