import Arith.Proofs.Token.Stream
import Mathlib

/-!
# Tokens tile the source text

A pull that brings a token has read white space and then the token, directly in front of what is
left (`Lexed`), and so have the pulls before it (`LexedAll`, `exists_left_of_pulls`). So the tokens
of a stream stand in the text one behind the other, with white space between them and none inside
them, and if the stream comes to its end, every other character of the text is part of a token
(`pulls_tiled`).
-/

namespace Arith.Lexer

open Utf8 Window
open Numeral (Literal)

/-! ## Tokens in a row -/

/--
White space and the text of a token stand at an offset, in front of `rest`, and this is the token
that is read there.
-/
structure Lexed (offset : Nat) (blanks : List Char) (shape : Shape) (text : List Char) (t : Token)
    (rest : Bytes) : Prop where
  blank : ∀ c ∈ blanks, isBlank c = true
  stops : Stops isBlank (encode text ++ rest)
  cut : Cut shape text rest
  span_eq : t.span = .ofLength (offset + (encode blanks).length) (encode text).length
  verdict_eq : verdict shape t.span.start text rest = .ok t.lexeme

/-- Some tokens are read one after the other from an offset on, and `left` is what is left. -/
inductive LexedAll : Nat → Bytes → List Token → Bytes → Prop where
  | nil (offset : Nat) (left : Bytes) : LexedAll offset left [] left
  | cons {offset : Nat} {blanks text : List Char} {shape : Shape} {t : Token} {tokens : List Token}
      {rest left : Bytes} (ht : Lexed offset blanks shape text t rest)
      (htokens : LexedAll t.span.stop rest tokens left) :
      LexedAll offset (encode blanks ++ (encode text ++ rest)) (t :: tokens) left

variable {l : Lexer} {behind ahead rest left : Bytes} {t : Token} {tokens : List Token}

/-- What a pull brings off a window that holds nothing, and what it has read. -/
inductive Brings (offset : Nat) : Bytes → Pull × Lexer → Prop where
  | finished {blanks : List Char} (hblanks : ∀ c ∈ blanks, isBlank c = true) (w : Window) :
      Brings offset (encode blanks) (.finished, ⟨w, true⟩)
  | token {blanks text : List Char} {shape : Shape} {t : Token} {rest behind : Bytes} {l : Lexer}
      (ht : Lexed offset blanks shape text t rest) (hl : l.Stands behind [] rest)
      (hstop : behind.length = t.span.stop) :
      Brings offset (encode blanks ++ (encode text ++ rest)) (.token t, l)
  | error {ahead : Bytes} (e : TokenError) (w : Window) : Brings offset ahead (.error e, ⟨w, true⟩)
  | fault {ahead : Bytes} (f : LexFault) (l : Lexer) : Brings offset ahead (.fault f, l)

theorem brings_next (h : l.Stands behind [] ahead) : Brings behind.length ahead l.next := by
  obtain ⟨blanks, ahead, rfl, hblanks, hstops, rfl | ⟨m, hm⟩ | ⟨shape, text, rest, rfl, hcut⟩⟩ :=
    exists_blanks ahead
  · rw [List.append_nil] at h ⊢
    obtain ⟨w, hnext⟩ := next_end h hblanks
    rw [hnext]
    exact Brings.finished hblanks w
  · obtain ⟨e, w, hnext⟩ := next_malformed h hblanks hm
    rw [hnext]
    exact Brings.error e w
  · have hnext := next_cut h hblanks hstops hcut (behindBlanks_nil behind blanks)
      (by rw [heldBlanks_nil, List.nil_append])
    rw [List.length_append] at hnext
    cases hverdict : verdict shape (behind.length + (encode blanks).length) text rest with
    | ok lexeme =>
      rw [hverdict] at hnext
      obtain ⟨l', hl', hnext⟩ := hnext
      rw [hnext]
      refine Brings.token ⟨hblanks, hstops, hcut, rfl, hverdict⟩ hl' ?_
      simp only [List.length_append, Span.ofLength]
    | error f =>
      rw [hverdict] at hnext
      cases f with
      | error e =>
        obtain ⟨w, hnext⟩ := hnext
        rw [hnext]
        exact Brings.error e w
      | fault f =>
        obtain ⟨l', -, hnext⟩ := hnext
        rw [hnext]
        exact Brings.fault f l'

/-- The first pull comes first. -/
theorem head?_pulls (l : Lexer) : l.pulls.head? = some l.next.1 := by
  rw [pulls]
  split <;> rfl

/-- Where some tokens end that begin behind an offset. -/
def stopOf (offset : Nat) : List Token → Nat
  | [] => offset
  | t :: tokens => stopOf t.span.stop tokens

/-- **Behind the pulls that brought tokens, a lexer stands** in front of what they have not read. -/
theorem exists_stands_of_pulls {stream : List Pull} (h : l.Stands behind [] ahead)
    (hpulls : l.pulls = tokens.map .token ++ stream) :
    ∃ (l' : Lexer) (behind' left : Bytes), LexedAll behind.length ahead tokens left ∧
      l'.Stands behind' [] left ∧ behind'.length = stopOf behind.length tokens ∧
      l'.pulls = stream := by
  -- every lexer that holds nothing is meant: after a token the next one begins so
  induction tokens generalizing l behind ahead with
  | nil => exact ⟨l, behind, ahead, LexedAll.nil _ _, h, rfl, hpulls⟩
  | cons t tokens ih =>
    have hbrings := brings_next h
    have hfirst := head?_pulls l
    rw [hpulls] at hfirst
    generalize hnext : l.next = result at hbrings hfirst
    cases hbrings with
    | token ht hl hstop =>
      cases hfirst
      rw [pulls_of_running hnext hl.running] at hpulls
      obtain ⟨l', behind', left, hlexed, hl', hbehind', hrest⟩ := ih hl (List.cons.inj hpulls).2
      rw [hstop] at hlexed hbehind'
      exact ⟨l', behind', left, LexedAll.cons ht hlexed, hl', hbehind', hrest⟩
    | _ => cases hfirst

/-- What the pulls of a stream have read that brought tokens; at its end white space is left. -/
theorem exists_left_of_pulls {stream : List Pull} (h : l.Stands behind [] ahead)
    (hpulls : l.pulls = tokens.map .token ++ stream) :
    ∃ left, LexedAll behind.length ahead tokens left ∧
      (stream.head? = some .finished →
        ∃ blanks, left = encode blanks ∧ ∀ c ∈ blanks, isBlank c = true) := by
  obtain ⟨l', behind', left, hlexed, hl', -, hrest⟩ := exists_stands_of_pulls h hpulls
  refine ⟨left, hlexed, fun hend => ?_⟩
  have hbrings := brings_next hl'
  have hfirst := head?_pulls l'
  rw [hrest, hend] at hfirst
  generalize l'.next = result at hbrings hfirst
  cases hbrings with
  | finished hblanks w => exact ⟨_, rfl, hblanks⟩
  | _ => cases hfirst

/-! ## Where tokens stand -/

/-- The bytes of a text between two offsets. -/
def between (source : Bytes) (start stop : Nat) : Bytes := (source.take stop).drop start

/-- Some bytes are white space. -/
def Blank (bytes : Bytes) : Prop :=
  ∃ blanks, decode? bytes = some blanks ∧ ∀ c ∈ blanks, isBlank c = true

/-- The bounds of what stands before some tokens and between them, from an offset on. -/
def gaps (offset : Nat) : List Token → List (Nat × Nat)
  | [] => []
  | t :: tokens => (offset, t.span.start) :: gaps t.span.stop tokens

/--
Tokens stand in a text from an offset on: none is empty or reaches behind the end, each begins where
the one before it ends or later, white space is before and between them, and none inside them.
-/
structure Tiled (source : Bytes) (offset : Nat) (tokens : List Token) : Prop where
  nonempty : ∀ t ∈ tokens, t.span.start < t.span.stop
  inside : ∀ t ∈ tokens, offset ≤ t.span.start ∧ t.span.stop ≤ source.length
  ordered : tokens.Pairwise fun t u => t.span.stop ≤ u.span.start
  gap : ∀ g ∈ gaps offset tokens, Blank (between source g.1 g.2)
  text : ∀ t ∈ tokens, ∃ text, t.text? source = some text ∧ t.span.slice source = encode text ∧
    ∀ c ∈ text, isBlank c = false

theorem between_append {pre mid post : Bytes} {start stop : Nat} (hstart : start = pre.length)
    (hstop : stop = pre.length + mid.length) : between (pre ++ (mid ++ post)) start stop = mid := by
  rw [between, hstart, hstop, ← List.length_append, ← List.append_assoc, List.take_left,
    List.drop_left]

theorem blank_encode {blanks : List Char} (h : ∀ c ∈ blanks, isBlank c = true) :
    Blank (encode blanks) :=
  ⟨blanks, decode?_encode blanks, h⟩

/-- No white space stands in a literal. -/
theorem Literal.isBlank_of_mem {lit : Literal} {c : Char} (hc : c ∈ lit.text) :
    isBlank c = false := by
  unfold Literal.text at hc
  split at hc
  · rcases List.mem_cons.1 hc with rfl | hc
    · decide
    · exact isBlank_of_isDigit (lit.all_digits c hc)
  · exact isBlank_of_isDigit (lit.all_digits c hc)

namespace Lexed

variable {offset : Nat} {blanks text : List Char} {shape : Shape}

/-- No white space stands in a token. -/
theorem isBlank_of_mem (h : Lexed offset blanks shape text t rest) {c : Char} (hc : c ∈ text) :
    isBlank c = false := by
  have hstops := h.stops
  cases h.cut with
  | literal lit => exact Literal.isBlank_of_mem hc
  | name hstart htail =>
    rcases List.mem_cons.1 hc with rfl | hc
    · exact isBlank_of_isNameChar (by rw [isNameChar, hstart, Bool.true_or])
    · exact isBlank_of_isNameChar (htail c hc)
  | single =>
    rw [encode_cons, List.append_assoc, stops_encodeCode] at hstops
    rw [List.mem_singleton.1 hc]
    exact hstops

theorem start_eq (h : Lexed offset blanks shape text t rest) :
    t.span.start = offset + (encode blanks).length := by
  rw [h.span_eq]
  rfl

theorem stop_eq (h : Lexed offset blanks shape text t rest) :
    t.span.stop = t.span.start + (encode text).length := by
  rw [h.span_eq]
  rfl

theorem start_lt_stop (h : Lexed offset blanks shape text t rest) : t.span.start < t.span.stop := by
  have := (length_encode_pos_iff text).2 h.cut.ne_nil
  have := h.stop_eq
  omega

variable {pre : Bytes}

/-- The bytes of a token are its text. -/
theorem slice_eq (h : Lexed pre.length blanks shape text t rest) :
    t.span.slice (pre ++ (encode blanks ++ (encode text ++ rest))) = encode text := by
  have hstart : t.span.start = (pre ++ encode blanks).length := by
    rw [h.start_eq, List.length_append]
  rw [← List.append_assoc]
  exact between_append hstart (by rw [h.stop_eq, hstart])

theorem text?_eq (h : Lexed pre.length blanks shape text t rest) :
    t.text? (pre ++ (encode blanks ++ (encode text ++ rest))) = some text := by
  rw [Token.text?, h.slice_eq, decode?_encode]

/-- A token and what stands before it are all that is not left. -/
theorem exists_before (h : Lexed pre.length blanks shape text t rest) :
    ∃ before, pre ++ (encode blanks ++ (encode text ++ rest)) = before ++ rest ∧
      before.length = t.span.stop := by
  refine ⟨pre ++ (encode blanks ++ encode text), by simp only [List.append_assoc], ?_⟩
  rw [h.stop_eq, h.start_eq, List.length_append, List.length_append, Nat.add_assoc]

end Lexed

namespace LexedAll

variable {offset : Nat} {pre : Bytes}

/-- Behind the last token stands what is left. -/
theorem drop_stopOf (h : LexedAll offset ahead tokens left) (hpre : pre.length = offset) :
    (pre ++ ahead).drop (stopOf offset tokens) = left := by
  induction h generalizing pre with
  | nil =>
    rw [stopOf, ← hpre]
    exact List.drop_left
  | cons ht _ ih =>
    subst hpre
    obtain ⟨before, hsource, hbefore⟩ := ht.exists_before
    rw [hsource, stopOf]
    exact ih hbefore

/-- What was read is a text, and it does not end with white space. -/
theorem exists_text (h : LexedAll offset ahead tokens left) :
    ∃ s, ahead = encode s ++ left ∧ stopOf offset tokens = offset + (encode s).length ∧
      ∀ c ∈ s.getLast?, isBlank c = false := by
  induction h with
  | nil => exact ⟨[], rfl, rfl, nofun⟩
  | @cons offset blanks text shape t tokens rest left ht _ ih =>
    obtain ⟨s, rfl, hstop, hlast⟩ := ih
    refine ⟨blanks ++ (text ++ s), ?_, ?_, ?_⟩
    · simp only [encode_append, List.append_assoc]
    · rw [stopOf, hstop, ht.stop_eq, ht.start_eq]
      simp only [encode_append, List.length_append, Nat.add_assoc]
    · intro c hc
      rw [List.getLast?_append_of_ne_nil _ (by simp [ht.cut.ne_nil]), List.getLast?_append] at hc
      cases hs : s.getLast? with
      | some d =>
        rw [hs] at hc
        cases hc
        exact hlast _ hs
      | none =>
        rw [hs, Option.none_or] at hc
        exact ht.isBlank_of_mem (List.mem_of_getLast? hc)

/-- Tokens that are read one after the other stand so in the text. -/
theorem tiled (h : LexedAll offset ahead tokens left) (hpre : pre.length = offset) :
    Tiled (pre ++ ahead) offset tokens := by
  induction h generalizing pre with
  | nil => exact ⟨nofun, nofun, List.Pairwise.nil, nofun, nofun⟩
  | @cons offset blanks text shape t tokens rest left ht htokens ih =>
    subst hpre
    have hstart := ht.start_eq
    have hlt := ht.start_lt_stop
    obtain ⟨before, hsource, hbefore⟩ := ht.exists_before
    -- from the end of the first token on the others stand so in the same text
    have htail := ih hbefore
    rw [← hsource] at htail
    refine ⟨?_, ?_, ?_, ?_, ?_⟩
    · exact List.forall_mem_cons.2 ⟨hlt, htail.nonempty⟩
    · refine List.forall_mem_cons.2 ⟨⟨by omega, ?_⟩, fun u hu => ?_⟩
      · rw [hsource, List.length_append]
        omega
      · obtain ⟨hle, hinside⟩ := htail.inside u hu
        exact ⟨by omega, hinside⟩
    · exact List.pairwise_cons.2 ⟨fun u hu => (htail.inside u hu).1, htail.ordered⟩
    · refine List.forall_mem_cons.2 ⟨?_, htail.gap⟩
      dsimp only
      rw [between_append rfl hstart]
      exact blank_encode ht.blank
    · refine List.forall_mem_cons.2 ⟨?_, htail.text⟩
      exact ⟨text, ht.text?_eq, ht.slice_eq, fun c hc => ht.isBlank_of_mem hc⟩

/-- Every one of the tokens has been read where it stands. -/
theorem exists_lexed (h : LexedAll offset ahead tokens left) (hpre : pre.length = offset)
    (ht : t ∈ tokens) : ∃ (before rest : Bytes) (blanks text : List Char) (shape : Shape),
      pre ++ ahead = before ++ (encode blanks ++ (encode text ++ rest)) ∧
        Lexed before.length blanks shape text t rest := by
  induction h generalizing pre with
  | nil => cases ht
  | @cons offset blanks text shape u tokens rest left hu _ ih =>
    subst hpre
    rcases List.mem_cons.1 ht with rfl | ht
    · exact ⟨pre, rest, blanks, text, shape, rfl, hu⟩
    · obtain ⟨before, hsource, hbefore⟩ := hu.exists_before
      rw [hsource]
      exact ih hbefore ht

/-- A member of a text that consists of two parts is in the first or in the second one. -/
theorem split_append {s s' before after : List Char} {c : Char}
    (h : s ++ s' = before ++ c :: after) :
    (∃ more, s = before ++ c :: more) ∨ ∃ more, before = s ++ more ∧ s' = more ++ c :: after := by
  rcases List.append_eq_append_iff.1 h with ⟨more, hbefore, hs'⟩ | ⟨more, hs, hc⟩
  · exact Or.inr ⟨more, hbefore, hs'⟩
  · cases more with
    | nil => exact Or.inr ⟨[], by simpa using hs.symm, hc.symm⟩
    | cons d more =>
      obtain ⟨rfl, -⟩ := List.cons.inj hc
      exact Or.inl ⟨more, hs⟩

/-- If white space is left, every other character is in a token. -/
theorem exists_mem_of_not_blank (h : LexedAll offset ahead tokens left)
    (hleft : ∃ blanks, left = encode blanks ∧ ∀ c ∈ blanks, isBlank c = true) :
    ∃ text, ahead = encode text ∧ ∀ before c after, text = before ++ c :: after →
      isBlank c = false → ∃ t ∈ tokens, t.span.start ≤ offset + (encode before).length ∧
        offset + (encode (before ++ [c])).length ≤ t.span.stop := by
  induction h with
  | nil =>
    obtain ⟨blanks, rfl, hblanks⟩ := hleft
    refine ⟨blanks, rfl, ?_⟩
    rintro before c after rfl hc
    rw [hblanks c (by simp)] at hc
    cases hc
  | @cons offset blanks text shape t tokens rest left ht htokens ih =>
    obtain ⟨chars, rfl, hchars⟩ := ih hleft
    refine ⟨blanks ++ (text ++ chars), by rw [encode_append, encode_append], ?_⟩
    intro before c after hsplit hc
    have hstart := ht.start_eq
    have hstop := ht.stop_eq
    rcases split_append hsplit with ⟨more, rfl⟩ | ⟨middle, rfl, hrest⟩
    · -- the character would be one of the blanks before the token
      rw [ht.blank c (by simp)] at hc
      cases hc
    rcases split_append hrest with ⟨more, rfl⟩ | ⟨more, rfl, rfl⟩
    · refine ⟨t, List.mem_cons_self, ?_, ?_⟩
      · rw [encode_append, List.length_append]
        omega
      · simp only [encode_append, encode_cons, encode_nil, List.length_append, List.append_nil]
          at hstop ⊢
        omega
    · obtain ⟨u, hu, hle, hge⟩ := hchars more c after rfl hc
      refine ⟨u, List.mem_cons_of_mem _ hu, ?_, ?_⟩
      · simp only [encode_append, List.length_append] at hge ⊢
        omega
      · simp only [encode_append, List.length_append] at hge ⊢
        omega

end LexedAll

/-- No place is in two tokens that are in order. -/
theorem eq_of_overlap (h : tokens.Pairwise fun t u => t.span.stop ≤ u.span.start) {t u : Token}
    (ht : t ∈ tokens) (hu : u ∈ tokens) {n : Nat} (htn : t.span.start ≤ n ∧ n < t.span.stop)
    (hun : u.span.start ≤ n ∧ n < u.span.stop) : t = u := by
  induction h with
  | nil => cases ht
  | cons hfirst _ ih =>
    rcases List.mem_cons.1 ht with rfl | htail
    · rcases List.mem_cons.1 hu with rfl | hutail
      · rfl
      · have := hfirst u hutail
        omega
    · rcases List.mem_cons.1 hu with rfl | hutail
      · have := hfirst t htail
        omega
      · exact ih htail hutail

/--
**The tokens of a stream tile its text.** However many pulls bring tokens, they stand in the text in
order, with white space before and between them and none inside. When the stream then comes to its
end, white space is left, and every other character of the text is in exactly one token.
-/
theorem pulls_tiled {source : Bytes} {stream : List Pull}
    (h : (ofBytes source).pulls = tokens.map .token ++ stream) :
    Tiled source 0 tokens ∧ (stream.head? = some .finished →
      Blank (source.drop (stopOf 0 tokens)) ∧
      ∃ text, source = encode text ∧ ∀ before c after, text = before ++ c :: after →
        isBlank c = false → ∃! t, t ∈ tokens ∧ t.span.start ≤ (encode before).length ∧
          (encode (before ++ [c])).length ≤ t.span.stop) := by
  obtain ⟨left, hlexed, hend⟩ := exists_left_of_pulls (stands_ofBytes source) h
  have htiled : Tiled ([] ++ source) 0 tokens := hlexed.tiled rfl
  have hdrop : ([] ++ source).drop (stopOf 0 tokens) = left := hlexed.drop_stopOf rfl
  rw [List.nil_append] at htiled hdrop
  refine ⟨htiled, fun hfinished => ⟨?_, ?_⟩⟩
  · obtain ⟨blanks, hleft, hblanks⟩ := hend hfinished
    rw [hdrop, hleft]
    exact blank_encode hblanks
  · obtain ⟨text, htext, hmem⟩ := hlexed.exists_mem_of_not_blank (hend hfinished)
    refine ⟨text, htext, ?_⟩
    intro before c after hsplit hc
    obtain ⟨t, ht, hle, hge⟩ := hmem before c after hsplit hc
    rw [List.length_nil, Nat.zero_add] at hle hge
    have hpos : (encode before).length < (encode (before ++ [c])).length := by
      have := length_encodeCode_pos c
      simp only [encode_append, encode_cons, encode_nil, List.length_append, List.append_nil]
      omega
    refine ⟨t, ⟨ht, hle, hge⟩, ?_⟩
    rintro u ⟨hu, hule, huge⟩
    exact eq_of_overlap htiled.ordered hu ht ⟨hule, by omega⟩ ⟨hle, by omega⟩

/-- In "(é 12" and a line feed, three tokens stand, and "é" is in just one of them. -/
theorem pulls_tiled_mixed :
    let source := encode ['(', 'é', ' ', '1', '2', '\n']
    let tokens : List Token :=
      [⟨.ofLength 0 1, .symbol .leftParen⟩, ⟨.ofLength 1 2, .unknown⟩, ⟨.ofLength 4 2, .number 12⟩]
    (ofBytes source).pulls = tokens.map .token ++ [.finished] ∧ Tiled source 0 tokens ∧
      Blank (source.drop 6) ∧ ∃! t, t ∈ tokens ∧ t.span.start ≤ 1 ∧ 3 ≤ t.span.stop := by
  intro source tokens
  have hpulls : (ofBytes source).pulls = tokens.map .token ++ [.finished] := by cbv
  obtain ⟨htiled, hend⟩ := pulls_tiled hpulls
  obtain ⟨hblank, text, htext, hmem⟩ := hend rfl
  refine ⟨hpulls, htiled, hblank, ?_⟩
  exact hmem ['('] 'é' [' ', '1', '2', '\n'] (encode_injective htext.symm) (by decide)

end Arith.Lexer
