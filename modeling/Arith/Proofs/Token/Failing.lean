import Arith.ErrorKind
import Arith.Proofs.Text.Offset
import Arith.Proofs.Token.Classes
import Arith.Proofs.Token.Reached

/-!
# Streams that fail at malformed bytes

Malformed bytes hide no token that is complete in front of them, and none is made up
(`pulls_of_malformed`). A token that has more text behind it is read as in the valid part of the
text alone, and so is a token of one character. A literal or a name directly in front of the
malformed bytes is not complete, since it is scanned on into them. Whatever finds the malformed
bytes, the error names the offset at which they begin.
-/

namespace Arith.Lexer

open Utf8 Window
open Numeral (Literal)

/-! ## Tokens with malformed bytes behind them -/

/-- The kinds of tokens that are scanned until a character does not belong to them. -/
def Scanned (kind : TokenKind) : Prop := kind = .number ∨ kind = .identifier ∨ kind = .keyword

instance (kind : TokenKind) : Decidable (Scanned kind) := inferInstanceAs (Decidable (_ ∨ _))

variable {shape : Shape} {offset start : Nat} {blanks text s : List Char} {t : Token}
  {rest bad front : Bytes} {m : Malformed}

/-- What stops at the end of a text stops there if other bytes follow at which it stops too. -/
theorem stops_append {test : Char → Bool} (h : Stops test (encode s)) (hfront : Stops test front) :
    Stops test (encode s ++ front) := by
  cases s with
  | nil => exact hfront
  | cons c s =>
    rw [encode_cons, stops_encodeCode] at h
    rw [encode_cons, List.append_assoc, stops_encodeCode]
    exact h

/-- A token goes on no further if bytes follow its text at which digits and names stop. -/
theorem Cut.append (h : Cut shape text (encode s)) (hdigit : Stops isDigit front)
    (hname : Stops isNameChar front) : Cut shape text (encode s ++ front) := by
  cases h with
  | literal lit hrest => exact Cut.literal lit (stops_append hrest hdigit)
  | name hstart htail hrest => exact Cut.name hstart htail (stops_append hrest hname)
  | single hc hstart hminus =>
    exact Cut.single hc hstart fun heq => stops_append (hminus heq) hdigit

/-- A verdict depends on what is wrong behind the token, and on nothing else there. -/
theorem verdict_congr {rest' : Bytes} (h : frontFault? rest = frontFault? rest') :
    verdict shape start text rest = verdict shape start text rest' := by
  rw [verdict.eq_def, verdict.eq_def, h]

/-- A verdict on a token of one character, or on one with more text behind it, stays. -/
theorem verdict_append_malformed (h : (∃ c, shape = .single c) ∨ s ≠ []) :
    verdict shape start text (encode s ++ bad) = verdict shape start text (encode s) := by
  rcases h with ⟨c, rfl⟩ | hs
  · rfl
  · obtain ⟨c, s, rfl⟩ := List.exists_cons_of_ne_nil hs
    refine verdict_congr ?_
    rw [encode_cons, List.append_assoc, frontFault?_encodeCode, frontFault?_encodeCode]

/-- A literal or a name directly in front of malformed bytes is an error about them. -/
theorem verdict_malformed (hshape : ∀ c, shape ≠ .single c) (hbad : frontFault? bad = some m) :
    verdict shape start text bad
      = .error (.error (.text (.ofMalformed (start + (encode text).length) m))) := by
  unfold verdict
  rw [hbad]
  cases shape with
  | single c => exact absurd rfl (hshape c)
  | literal => rfl
  | name => rfl

namespace Lexed

/-- A token is read so with other bytes behind the text, if it goes on no further and its verdict
stays. -/
theorem append (h : Lexed offset blanks shape text t (encode s)) (hdigit : Stops isDigit front)
    (hname : Stops isNameChar front) (hverdict : verdict shape t.span.start text (encode s ++ front)
      = verdict shape t.span.start text (encode s)) :
    Lexed offset blanks shape text t (encode s ++ front) where
  blank := h.blank
  stops := by
    -- the text is not empty, and white space does not begin it
    have hstops := h.stops
    obtain ⟨c, tail, rfl⟩ := List.exists_cons_of_ne_nil h.cut.ne_nil
    rw [encode_cons, List.append_assoc, stops_encodeCode] at hstops ⊢
    exact hstops
  cut := h.cut.append hdigit hname
  span_eq := h.span_eq
  verdict_eq := by rw [hverdict, h.verdict_eq]

theorem append_malformed (h : Lexed offset blanks shape text t (encode s))
    (hbad : frontFault? bad = some m) (hkept : (∃ c, shape = .single c) ∨ s ≠ []) :
    Lexed offset blanks shape text t (encode s ++ bad) :=
  h.append (stops_of_frontFault hbad) (stops_of_frontFault hbad) (verdict_append_malformed hkept)

/-- Just the tokens of one character are not scanned. -/
theorem scanned_iff (h : Lexed offset blanks shape text t rest) :
    Scanned t.lexeme.kind ↔ ∀ c, shape ≠ .single c := by
  have hverdict := h.verdict_eq
  cases h.cut with
  | literal lit _ =>
    rw [eq_of_verdict_literal hverdict]
    exact ⟨fun _ c => nofun, fun _ => Or.inl rfl⟩
  | name _ _ _ =>
    rw [eq_of_verdict_name hverdict]
    refine ⟨fun _ c => nofun, fun _ => Or.inr ?_⟩
    unfold classifyName
    dsimp only
    split
    · exact Or.inr rfl
    · exact Or.inl rfl
  | @single c _ _ _ _ =>
    have hlexeme : classifySingle c = t.lexeme := Except.ok.inj hverdict
    have hkind : ¬ Scanned t.lexeme.kind := by
      rw [← hlexeme]
      unfold classifySingle
      cases Symbol.ofChar? c <;> simp [Scanned, Lexeme.kind]
    exact ⟨fun hscanned => absurd hscanned hkind, fun hshape => absurd rfl (hshape c)⟩

/-- A token that is read is pulled. -/
theorem next_eq {l : Lexer} {behind : Bytes}
    (h : l.Stands behind [] (encode blanks ++ (encode text ++ rest)))
    (ht : Lexed behind.length blanks shape text t rest) :
    ∃ l' behind', l'.Stands behind' [] rest ∧ behind'.length = t.span.stop ∧
      l.next = (.token t, l') := by
  have hnext := next_cut h ht.blank ht.stops ht.cut (behindBlanks_nil behind blanks)
    (by rw [heldBlanks_nil, List.nil_append])
  have hstart : (behind ++ encode blanks).length = t.span.start := by
    rw [List.length_append, ht.start_eq]
  rw [hstart, ht.verdict_eq] at hnext
  obtain ⟨l', hl', hnext⟩ := hnext
  refine ⟨l', _, hl', ?_, ?_⟩
  · rw [List.length_append, hstart, ht.stop_eq]
  · rw [hnext, hstart.symm, List.length_append, ← ht.span_eq]

/-- A literal or a name directly in front of malformed bytes is not pulled. -/
theorem next_malformed {l : Lexer} {behind : Bytes}
    (h : l.Stands behind [] (encode blanks ++ (encode text ++ bad)))
    (ht : Lexed behind.length blanks shape text t []) (hshape : ∀ c, shape ≠ .single c)
    (hbad : frontFault? bad = some m) :
    ∃ w, l.next = (.error (.text (.ofMalformed t.span.stop m)), ⟨w, true⟩) := by
  have hcut : Cut shape text ([] ++ bad) :=
    ht.cut.append (s := []) (stops_of_frontFault hbad) (stops_of_frontFault hbad)
  have hstops : Stops isBlank (encode text ++ bad) :=
    stops_append (by simpa using ht.stops) (stops_of_frontFault hbad)
  have hnext := next_cut h ht.blank hstops hcut (behindBlanks_nil behind blanks)
    (by rw [heldBlanks_nil, List.nil_append])
  rw [verdict_malformed hshape hbad, List.length_append, ← ht.start_eq, ← ht.stop_eq] at hnext
  exact hnext

end Lexed

/-! ## The stream -/

/-- No token is read of nothing. -/
theorem LexedAll.eq_nil {left : Bytes} {tokens : List Token}
    (h : LexedAll offset [] tokens left) : tokens = [] := by
  generalize hahead : ([] : Bytes) = ahead at h
  cases h with
  | nil => rfl
  | cons ht _ =>
    have htext := congrArg List.length hahead
    have := (length_encode_pos_iff _).2 ht.cut.ne_nil
    simp only [List.length_append, List.length_nil] at htext
    omega

/-- The last of some tokens ends at an offset and is scanned. -/
def EndsScanned (p : Nat) (tokens : List Token) : Prop :=
  ∃ t ∈ tokens.getLast?, t.span.stop = p ∧ Scanned t.lexeme.kind

instance (p : Nat) (tokens : List Token) : Decidable (EndsScanned p tokens) :=
  inferInstanceAs (Decidable (∃ t ∈ tokens.getLast?, _))

/--
The tokens of a valid text that are pulled when malformed bytes at the offset `p` follow: a literal
or a name that ends there is lost.
-/
def keptAt (p : Nat) (tokens : List Token) : List Token :=
  if EndsScanned p tokens then tokens.dropLast else tokens

/-- A token that is not scanned up to the malformed bytes is pulled. -/
theorem keptAt_cons {p : Nat} {tokens : List Token}
    (ht : ¬ (t.span.stop = p ∧ Scanned t.lexeme.kind)) :
    keptAt p (t :: tokens) = t :: keptAt p tokens := by
  cases tokens with
  | nil =>
    have hends : ¬ EndsScanned p [t] := by
      rintro ⟨u, hu, hends⟩
      cases hu
      exact ht hends
    have hnil : ¬ EndsScanned p [] := fun ⟨u, hu, _⟩ => nomatch hu
    rw [keptAt, keptAt, if_neg hends, if_neg hnil]
  | cons u tokens =>
    have hiff : EndsScanned p (t :: u :: tokens) ↔ EndsScanned p (u :: tokens) := by
      rw [EndsScanned, EndsScanned, List.getLast?_cons_cons]
    simp only [keptAt, hiff]
    split
    · rw [List.dropLast_cons_cons]
    · rfl

/-- What was read of a text is a text, if one is left. -/
theorem LexedAll.exists_encode {ahead left : Bytes} {tokens : List Token}
    (h : LexedAll offset ahead tokens left)
    (hleft : ∃ s, left = encode s ∧ ∀ c ∈ s, isBlank c = true) : ∃ s, ahead = encode s := by
  obtain ⟨blanks, rfl, -⟩ := hleft
  obtain ⟨s, hs, -⟩ := h.exists_text
  exact ⟨s ++ blanks, by rw [hs, encode_append]⟩

/-- **Malformed bytes behind a valid text end its stream**, and cost it at most the last token. -/
theorem LexedAll.pulls_malformed {ahead left : Bytes} {tokens : List Token} {l : Lexer}
    {behind : Bytes} (h : LexedAll offset ahead tokens left)
    (hleft : ∃ s, left = encode s ∧ ∀ c ∈ s, isBlank c = true) (hbad : frontFault? bad = some m)
    (hl : l.Stands behind [] (ahead ++ bad)) (hbehind : behind.length = offset) :
    l.pulls = (keptAt (offset + ahead.length) tokens).map .token
      ++ [.error (.text (.ofMalformed (offset + ahead.length) m))] := by
  induction h generalizing l behind with
  | nil =>
    obtain ⟨s, rfl, hs⟩ := hleft
    obtain ⟨w, hnext⟩ := next_malformed_eq hl hs hbad
    rw [pulls_of_exhausted hnext rfl, List.nil_append, hbehind]
    rfl
  | @cons offset blanks text shape t tokens rest left ht htokens ih =>
    subst hbehind
    obtain ⟨s, rfl⟩ := htokens.exists_encode hleft
    have hp : behind.length + (encode blanks ++ (encode text ++ encode s)).length
        = t.span.stop + (encode s).length := by
      rw [ht.stop_eq, ht.start_eq, List.length_append, List.length_append]
      omega
    rw [List.append_assoc, List.append_assoc] at hl
    rw [hp]
    by_cases hkept : (∃ c, shape = .single c) ∨ s ≠ []
    · obtain ⟨l', behind', hl', hbehind', hnext⟩ := (ht.append_malformed hbad hkept).next_eq hl
      have hcons : ¬ (t.span.stop = t.span.stop + (encode s).length ∧ Scanned t.lexeme.kind) := by
        rintro ⟨hstop, hscanned⟩
        rcases hkept with ⟨c, hc⟩ | hs
        · exact ht.scanned_iff.1 hscanned c hc
        · have := (length_encode_pos_iff s).2 hs
          omega
      rw [pulls_of_running hnext hl'.running, ih hleft hl' hbehind', keptAt_cons hcons]
      rfl
    · -- the token is the last one, and it is scanned on into the malformed bytes
      rw [not_or, not_exists, Classical.not_not] at hkept
      obtain ⟨hshape, rfl⟩ := hkept
      obtain rfl := htokens.eq_nil
      obtain ⟨w, hnext⟩ := ht.next_malformed hl hshape hbad
      have hends : EndsScanned t.span.stop [t] := ⟨t, rfl, rfl, ht.scanned_iff.2 hshape⟩
      rw [pulls_of_exhausted hnext rfl, encode_nil, List.length_nil, Nat.add_zero, keptAt,
        if_pos hends]
      rfl

/-- As long as a stream goes on, it has the pulls left that it has not brought yet. -/
theorem pulls_reached {source : Bytes} {count : Nat} (h : count < (ofBytes source).pulls.length) :
    (reached source count).pulls = (ofBytes source).pulls.drop count := by
  induction count with
  | zero => rfl
  | succ count ih =>
    have hdrop := ih (Nat.lt_of_succ_lt h)
    rw [pulls] at hdrop
    split at hdrop
    · have hlength := congrArg List.length hdrop
      rw [List.length_drop, List.length_singleton] at hlength
      omega
    · rw [← List.tail_drop, ← hdrop]
      rfl

/-- Behind the pulls that are listed, a stream is exhausted. -/
theorem exhausted_of_pulls {source : Bytes} {before : List Pull} {last : Pull}
    (h : (ofBytes source).pulls = before ++ [last]) :
    (reached source (before.length + 1)).exhausted = true := by
  have hlast : (reached source before.length).pulls = (ofBytes source).pulls.drop before.length :=
    pulls_reached (by rw [h]; simp)
  rw [h, List.drop_left, pulls] at hlast
  split at hlast
  next hexhausted => exact hexhausted
  next =>
    -- the next pull would have to be listed
    have hhead := head?_pulls (reached source before.length).next.2
    rw [(List.cons.inj hlast).2] at hhead
    cases hhead

/--
**A token error at malformed bytes hides no token and makes none up.** The tokens of the valid text
in front of the malformed bytes are pulled, but for a literal or a name directly in front of them;
then the error comes, which begins where the malformed bytes do, and the stream is exhausted.
-/
theorem pulls_of_malformed {source : Bytes} {p : Nat} {tokens : List Token}
    (hfault : (strictFrom 0 source).2 = some (p, m))
    (hvalid : (ofBytes (source.take p)).pulls = tokens.map .token ++ [.finished]) :
    ∃ (e : TokenError) (cause : TextError),
      (ofBytes source).pulls = (keptAt p tokens).map .token ++ [.error e] ∧
      e.kind = .token ∧ e.span.start = p ∧ e.span.stop ≤ source.length ∧
      e.cause? = some cause ∧ cause.kind = .invalidText ∧ cause.message = e.message ∧
      cause.span = e.span ∧
      (reached source ((keptAt p tokens).length + 1)).exhausted = true := by
  obtain ⟨text, bad, rfl, rfl, hbad⟩ := eq_of_strictFrom hfault
  rw [Nat.zero_add, List.take_left] at hvalid
  obtain ⟨left, hlexed, hend⟩ := exists_left_of_pulls (stands_ofBytes (encode text)) hvalid
  have hpulls := hlexed.pulls_malformed (hend rfl) hbad (stands_ofBytes (encode text ++ bad)) rfl
  obtain ⟨lead, rest, rfl, hdecode⟩ := exists_of_frontFault hbad
  have hsize := (size_of_decodeHead hdecode).2
  have hexhausted := exhausted_of_pulls hpulls
  rw [List.length_map] at hexhausted
  refine ⟨_, _, hpulls, rfl, rfl, ?_, rfl, rfl, rfl, rfl, hexhausted⟩
  show 0 + (encode text).length + m.size ≤ _
  rw [List.length_append]
  omega

/-- In `x`, a space, `1`, a minus sign, `2` and a byte that begins no character, the number is lost
that ends at that byte. -/
theorem pulls_of_malformed_number :
    let source : Bytes := [0x78, 0x20, 0x31, 0x2D, 0x32, 0xFF]
    let tokens : List Token :=
      [⟨.ofLength 0 1, .identifier "x"⟩, ⟨.ofLength 2 1, .number 1⟩, ⟨.ofLength 3 2, .number (-2)⟩]
    (strictFrom 0 source).2 = some (5, .badLead 0xFF) ∧
      (ofBytes (source.take 5)).pulls = tokens.map .token ++ [.finished] ∧
      ∃ (e : TokenError) (cause : TextError),
        (ofBytes source).pulls = (tokens.take 2).map .token ++ [.error e] ∧
        e.kind = .token ∧ e.span.start = 5 ∧ e.span.stop ≤ 6 ∧ e.cause? = some cause ∧
        cause.kind = .invalidText ∧ cause.message = e.message ∧ cause.span = e.span ∧
        (reached source 3).exhausted = true := by
  intro source tokens
  have hfault : (strictFrom 0 source).2 = some (5, .badLead 0xFF) := by cbv
  have hvalid : (ofBytes (source.take 5)).pulls = tokens.map .token ++ [.finished] := by cbv
  have hkept : keptAt 5 tokens = tokens.take 2 := by decide
  have hlength : (tokens.take 2).length + 1 = 3 := rfl
  have hpulls := pulls_of_malformed hfault hvalid
  rw [hkept, hlength] at hpulls
  exact ⟨hfault, hvalid, hpulls⟩

end Arith.Lexer
