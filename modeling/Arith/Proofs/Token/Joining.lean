import Arith.Proofs.Token.Failing
import Arith.Proofs.Token.Shifting

/-!
# Texts that white space joins

White space cuts every token: a token in front of it is read as at the end of the text
(`Lexed.append_blanks`), and behind white space a stream brings what it brings at the beginning of
a text (`pulls_blanks`). So the stream of two texts with white space between them brings the tokens
of the first text, and then what the stream of the second one brings, with all places shifted
(`pulls_joined`).
-/

namespace Arith.Lexer

open Utf8 Window

variable {offset : Nat} {blanks text s : List Char} {shape : Shape} {t : Token} {l : Lexer}
  {behind ahead left b : Bytes} {tokens : List Token}

/-! ## In front of white space -/

/-- A test that white space fails stops at white space. -/
theorem stops_blanks {test : Char → Bool} (htest : ∀ c, test c = true → isBlank c = false)
    (hne : blanks ≠ []) (hblanks : ∀ c ∈ blanks, isBlank c = true) :
    Stops test (encode blanks ++ b) := by
  obtain ⟨c, tail, rfl⟩ := List.exists_cons_of_ne_nil hne
  rw [encode_cons, List.append_assoc, stops_encodeCode, ← Bool.not_eq_true]
  intro hc
  have hblank := hblanks c List.mem_cons_self
  rw [htest c hc] at hblank
  cases hblank

/-- No malformed bytes stand behind a text that goes on with a character. -/
theorem frontFault?_append_blanks (hne : blanks ≠ []) :
    frontFault? (encode s ++ (encode blanks ++ b)) = frontFault? (encode s) := by
  cases s with
  | nil =>
    obtain ⟨c, tail, rfl⟩ := List.exists_cons_of_ne_nil hne
    rw [encode_nil, List.nil_append, encode_cons, List.append_assoc, frontFault?_encodeCode]
    rfl
  | cons c s =>
    rw [encode_cons, List.append_assoc, frontFault?_encodeCode, frontFault?_encodeCode]

/-- **A token in front of white space is read as at the end of the text.** -/
theorem Lexed.append_blanks {before : List Char} (h : Lexed offset before shape text t (encode s))
    (hne : blanks ≠ []) (hblanks : ∀ c ∈ blanks, isBlank c = true) :
    Lexed offset before shape text t (encode s ++ (encode blanks ++ b)) :=
  h.append (stops_blanks (fun _ => isBlank_of_isDigit) hne hblanks)
    (stops_blanks (fun _ => isBlank_of_isNameChar) hne hblanks)
    (verdict_congr (frontFault?_append_blanks hne))

/-! ## Behind white space -/

/-- Two windows that hold the same, with the same bytes ahead, are shifted by what is before one. -/
theorem shifted_of_view {w v : Window} {pre : Bytes} {held : List Char}
    (hw : w.View (pre ++ behind) held ahead) (hv : v.View behind held ahead) :
    Window.Shifted pre.length w v := by
  refine ⟨?_, ?_, ?_⟩
  · rw [hw.source_eq, hv.source_eq, List.append_assoc]
    exact List.drop_left
  · rw [hw.start_eq, hv.start_eq, List.length_append]
  · rw [hw.stop_eq, hv.stop_eq, List.length_append, Nat.add_assoc]

/-- **Behind white space a stream brings what it brings at the beginning of a text.** -/
theorem pulls_blanks (h : l.Stands behind [] (encode blanks ++ b))
    (hblanks : ∀ c ∈ blanks, isBlank c = true) :
    l.pulls = (ofBytes b).pulls.map (Pull.shift (behind ++ encode blanks).length) := by
  -- the white space that begins the second text is skipped with the white space before it
  obtain ⟨more, ahead, rfl, hmore, hstops, -⟩ := exists_blanks b
  have hfresh := stands_ofBytes (encode more ++ ahead)
  rw [← List.append_assoc, ← encode_append] at h
  have hall : ∀ c ∈ blanks ++ more, isBlank c = true :=
    List.forall_mem_append.2 ⟨hblanks, hmore⟩
  cases hfront : frontFault? ahead with
  | some m =>
    obtain ⟨w, hnext⟩ := next_malformed_eq h hall hfront
    obtain ⟨v, hnext'⟩ := next_malformed_eq hfresh hmore hfront
    rw [pulls_of_exhausted hnext rfl, pulls_of_exhausted hnext' rfl]
    simp only [List.map_cons, List.map_nil, Pull.shift, TokenError.shift,
      TextError.shift_ofMalformed, List.nil_append, List.length_nil, Nat.zero_add, encode_append,
      List.length_append, Nat.add_assoc]
  | none =>
    obtain ⟨w, hw, hskip⟩ := skipBlanks_view h.view hall hstops hfront
    obtain ⟨v, hv, hskip'⟩ := skipBlanks_view hfresh.view hmore hstops hfront
    rw [behindBlanks_nil, heldBlanks_nil] at hw hv
    rw [encode_append, ← List.append_assoc] at hw
    have hshifted := shifted_of_view hw hv
    refine pulls_eq_of_next (alikePulls_next h.running hfresh.running (alike_scanToken ?_))
    rw [hskip, hskip']
    exact Alike.ok rfl hshifted

/-! ## Two texts -/

/-- Tokens in front of white space are pulled, and then what stands behind it. -/
theorem LexedAll.pulls_blanks (h : LexedAll offset ahead tokens left)
    (hleft : ∃ s, left = encode s ∧ ∀ c ∈ s, isBlank c = true) (hne : blanks ≠ [])
    (hblanks : ∀ c ∈ blanks, isBlank c = true)
    (hl : l.Stands behind [] (ahead ++ (encode blanks ++ b))) (hbehind : behind.length = offset) :
    l.pulls = tokens.map .token
      ++ (ofBytes b).pulls.map (Pull.shift (offset + (ahead ++ encode blanks).length)) := by
  induction h generalizing l behind with
  | nil =>
    obtain ⟨s, rfl, hs⟩ := hleft
    rw [← List.append_assoc, ← encode_append] at hl
    rw [Lexer.pulls_blanks hl (List.forall_mem_append.2 ⟨hs, hblanks⟩), List.length_append,
      hbehind, encode_append]
    rfl
  | @cons offset before text shape t tokens rest left ht htokens ih =>
    subst hbehind
    obtain ⟨s, rfl⟩ := htokens.exists_encode hleft
    rw [List.append_assoc, List.append_assoc] at hl
    obtain ⟨l', behind', hl', hbehind', hnext⟩ := (ht.append_blanks hne hblanks).next_eq hl
    have hlength : t.span.stop + (encode s ++ encode blanks).length = behind.length
        + (encode before ++ (encode text ++ encode s) ++ encode blanks).length := by
      rw [ht.stop_eq, ht.start_eq]
      simp only [List.length_append]
      omega
    rw [pulls_of_running hnext hl'.running, ih hleft hl' hbehind', hlength]
    rfl

/--
**White space joins streams.** The stream of two texts with white space between them, if the first
one is read to its end, brings the tokens of the first text and then what the stream of the second
text brings, with all places shifted behind the white space. If the second text has no overlong run
of digits, that is its tokens and then its end or its error, which is of the same kind, says the
same and has the same cause, at places that are shifted.
-/
theorem pulls_joined {a b : Bytes} {tokens : List Token} {blanks : List Char}
    (ha : (ofBytes a).pulls = tokens.map .token ++ [.finished]) (hne : blanks ≠ [])
    (hblanks : ∀ c ∈ blanks, isBlank c = true) :
    let count := a.length + (encode blanks).length
    (ofBytes (a ++ encode blanks ++ b)).pulls
        = tokens.map .token ++ (ofBytes b).pulls.map (Pull.shift count) ∧
      (DigitRunsWithin Numeral.digitLimit b → ∃ (tokens' : List Token) (error? : Option TokenError),
        (ofBytes b).pulls = tokens'.map .token ++ [lastPull error?] ∧
        (ofBytes (a ++ encode blanks ++ b)).pulls
          = (tokens ++ tokens'.map (Token.shift count)).map .token
            ++ [lastPull (error?.map (TokenError.shift count))] ∧
        ∀ e ∈ error?, let e' := e.shift count
          e'.kind = e.kind ∧ e'.message = e.message ∧ e'.span = e.span.shift count ∧
            e'.cause? = e.cause?.map (TextError.shift count)) := by
  intro count
  obtain ⟨left, hlexed, hend⟩ := exists_left_of_pulls (stands_ofBytes a) ha
  have hl := stands_ofBytes (a ++ encode blanks ++ b)
  rw [List.append_assoc] at hl
  have hpulls := hlexed.pulls_blanks (hend rfl) hne hblanks hl rfl
  rw [← List.append_assoc, List.length_append, List.length_nil, Nat.zero_add] at hpulls
  refine ⟨hpulls, fun hb => ?_⟩
  obtain ⟨tokens', error?, hb⟩ := exists_tokens hb
  refine ⟨tokens', error?, hb, ?_, fun e _ => ⟨?_, ?_, ?_, ?_⟩⟩
  · rw [hpulls, hb]
    cases error? <;> simp [lastPull, Pull.shift, count, Function.comp_def]
  · exact e.kind_shift count
  · exact e.message_shift count
  · exact e.span_shift count
  · exact e.cause?_shift count

/-- Behind "-" and a line separator, "-1" is a number as at the beginning of a text, and a byte
that begins no character is found where it then stands. -/
theorem pulls_joined_minus :
    let b : Bytes := [0x2D, 0x31, 0x20, 0xFF]
    let minus : Token := ⟨.ofLength 0 1, .symbol .minus⟩
    (ofBytes (encode ['-'])).pulls = [minus].map .token ++ [.finished] ∧
      (ofBytes (encode ['-'] ++ encode ['\u2028'] ++ b)).pulls
        = [.token minus, .token ⟨.ofLength 4 2, .number (-1)⟩,
            .error (.text (.ofMalformed 7 (.badLead 0xFF)))] ∧
      DigitRunsWithin Numeral.digitLimit b ∧
      ∃ (tokens' : List Token) (error? : Option TokenError),
        (ofBytes b).pulls = tokens'.map .token ++ [lastPull error?] ∧
        (ofBytes (encode ['-'] ++ encode ['\u2028'] ++ b)).pulls
          = ([minus] ++ tokens'.map (Token.shift 4)).map .token
            ++ [lastPull (error?.map (TokenError.shift 4))] := by
  intro b minus
  have ha : (ofBytes (encode ['-'])).pulls = [minus].map .token ++ [.finished] := by cbv
  have hb : DigitRunsWithin Numeral.digitLimit b := digitRunsWithin_of_length (by decide)
  have hblanks : ∀ c ∈ ['\u2028'], isBlank c = true := List.forall_mem_singleton.2 rfl
  have hpulls : (ofBytes b).pulls = [.token ⟨.ofLength 0 2, .number (-1)⟩,
      .error (.text (.ofMalformed 3 (.badLead 0xFF)))] := by cbv
  obtain ⟨hjoined, hparts⟩ := pulls_joined (b := b) ha (List.cons_ne_nil _ _) hblanks
  obtain ⟨tokens', error?, hb', hjoined', -⟩ := hparts hb
  rw [hpulls] at hjoined
  exact ⟨ha, hjoined, hb, tokens', error?, hb', hjoined'⟩

end Arith.Lexer
