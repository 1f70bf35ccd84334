import Arith.Proofs.Token.Stream

/-!
# Streams that bring their numbers

A stream of tokens should bring tokens, end, or fail with a token error and then end, and every
literal that it meets should be brought as its number, however long it is (`Lawful`). That is so for
just those texts in which no literal of more digits than are read is met (`lawful_iff`). At such a
literal, whatever its value, a pull fails without a token error. The stream goes on with the literal
in its window, and a literal that follows directly is refused with it.
-/

namespace Arith.Lexer

open Utf8 Window
open Numeral (Literal)

/-! ## The states of a stream -/

/-- The stream of a text after some pulls. -/
def reached (source : Bytes) : Nat → Lexer
  | 0 => ofBytes source
  | count + 1 => (reached source count).next.2

/-- A stream that goes on meets a literal. -/
def Meets (l : Lexer) (blanks : List Char) (lit : Literal) (rest : Bytes) : Prop :=
  l.exhausted = false ∧ LiteralAt l.window.rest blanks lit rest

/-- Where a literal stands that is met behind white space. -/
def spanAhead (l : Lexer) (blanks : List Char) (lit : Literal) : Span :=
  .ofLength (l.window.stop + (encode blanks).length) (encode lit.text).length

/--
Every pull brings a token, ends the stream, or fails with a token error and ends the stream; and a
literal is brought as its number if that fits in 64 bits, and is a token error otherwise.
-/
structure Lawful (source : Bytes) : Prop where
  pull : ∀ count, (∃ t, (reached source count).next.1 = .token t) ∨
    (∃ e, (reached source count).next.1 = .error e ∧
      (reached source count).next.2.exhausted = true) ∨
    (reached source count).next.1 = .finished
  literal : ∀ count blanks lit rest, (reached source count).Meets blanks lit rest →
    (reached source count).next.1 =
      if Fits lit.value then .token ⟨(reached source count).spanAhead blanks lit, .number lit.value⟩
      else .error (.outOfRange lit.text ((reached source count).spanAhead blanks lit))

/-- A stream is exhausted, or holds nothing or a numeral of too many digits. -/
theorem reached_cases (source : Bytes) (count : Nat) :
    (reached source count).exhausted = true ∨
      ∃ behind held ahead, (reached source count).Stands behind held ahead ∧ Held ahead held := by
  induction count with
  | zero => exact Or.inr ⟨[], [], source, stands_ofBytes source, Held.nothing⟩
  | succ count ih =>
    rw [reached]
    rcases ih with hexhausted | ⟨behind, held, ahead, hstands, hheld⟩
    · left
      rw [next_of_exhausted hexhausted]
      exact hexhausted
    · have houtcome := next_outcome hstands hheld
      generalize (reached source count).next = result at houtcome
      cases houtcome with
      | finished w => exact Or.inl rfl
      | error e w => exact Or.inl rfl
      | token hl => exact Or.inr ⟨_, _, _, hl, Held.nothing⟩
      | overlong hl hheld => exact Or.inr ⟨_, _, _, hl, hheld⟩

/-! ## One literal -/

variable {l : Lexer} {behind ahead rest : Bytes} {held blanks : List Char} {lit : Literal}

/-- A literal that the window holds alone is brought as its number, if it has few digits. -/
theorem next_of_meets_fresh (h : l.Stands behind held ahead) (hmeets : l.Meets blanks lit rest)
    (hfresh : heldBlanks held blanks = []) :
    l.next.1 =
      if lit.Overlong then .fault (.numeral .tooLong)
      else if Fits lit.value then .token ⟨l.spanAhead blanks lit, .number lit.value⟩
      else .error (.outOfRange lit.text (l.spanAhead blanks lit)) := by
  obtain ⟨-, hat⟩ := hmeets
  have hahead := hat.bytes_eq
  rw [h.view.rest_eq] at hahead
  subst hahead
  have hlength : (behindBlanks behind held blanks).length
      = l.window.stop + (encode blanks).length := by
    rw [h.view.stop_eq]
    unfold behindBlanks
    unfold heldBlanks at hfresh
    by_cases hblanks : blanks = []
    · rw [if_pos hblanks] at hfresh
      simp [hblanks, hfresh]
    · rw [if_neg hblanks, encode_append]
      simp [Nat.add_assoc]
  have hwhole : heldBlanks held blanks ++ lit.text = lit.text := by
    rw [hfresh, List.nil_append]
  have hnext := next_cut h hat.blank (Literal.stops_isBlank lit rest) (Cut.literal lit hat.stops)
    rfl hwhole
  unfold verdict at hnext
  rw [hat.sound, hlength] at hnext
  dsimp only at hnext
  rw [numberOf_literal] at hnext
  by_cases hlong : lit.Overlong
  · rw [if_pos hlong] at hnext ⊢
    obtain ⟨l', -, hnext⟩ := hnext
    rw [hnext]
  · rw [if_neg hlong] at hnext ⊢
    by_cases hfits : Fits lit.value
    · rw [if_pos hfits] at hnext ⊢
      obtain ⟨l', -, hnext⟩ := hnext
      rw [hnext]
      rfl
    · rw [if_neg hfits] at hnext ⊢
      obtain ⟨w, hnext⟩ := hnext
      rw [hnext]
      rfl

/-- **A literal is brought as its number if it has few digits**, and if the window holds nothing
more when it is read. -/
theorem next_of_meets (h : l.Stands behind held ahead) (hheld : Held ahead held)
    (hmeets : l.Meets blanks lit rest) :
    l.next.1 =
      if lit.Overlong ∨ held ≠ [] ∧ blanks = [] then .fault (.numeral .tooLong)
      else if Fits lit.value then .token ⟨l.spanAhead blanks lit, .number lit.value⟩
      else .error (.outOfRange lit.text (l.spanAhead blanks lit)) := by
  by_cases hmore : held ≠ [] ∧ blanks = []
  · -- the literal directly follows one that stayed in the window
    obtain ⟨hne, rfl⟩ := hmore
    obtain ⟨-, hat⟩ := hmeets
    have hahead := hat.bytes_eq
    rw [h.view.rest_eq] at hahead
    subst hahead
    have hwhole : heldBlanks held [] ++ lit.text = held ++ lit.text := rfl
    have hnext := next_cut h hat.blank (Literal.stops_isBlank lit rest) (Cut.literal lit hat.stops)
      rfl hwhole
    unfold verdict numberOf at hnext
    rw [hat.sound, (Held.read_append hheld hne hat.stops).1] at hnext
    obtain ⟨l', -, hnext⟩ := hnext
    rw [hnext, if_pos (Or.inr ⟨hne, rfl⟩)]
  · have hfresh : heldBlanks held blanks = [] := by
      unfold heldBlanks
      split
      next hblanks => exact Classical.not_not.1 fun hne => hmore ⟨hne, hblanks⟩
      next => rfl
    rw [next_of_meets_fresh h hmeets hfresh]
    simp only [hmore, or_false]

/-! ## Lawful texts -/

/-- A stream that meets a literal goes on. -/
theorem stands_of_meets {source : Bytes} {count : Nat}
    (hmeets : (reached source count).Meets blanks lit rest) :
    ∃ behind held ahead, (reached source count).Stands behind held ahead ∧ Held ahead held := by
  rcases reached_cases source count with hexhausted | hstands
  · rw [hmeets.1] at hexhausted
    cases hexhausted
  · exact hstands

/-- A literal of too many digits breaks the law. -/
theorem not_lawful_of_meets {source : Bytes} {count : Nat}
    (hmeets : (reached source count).Meets blanks lit rest) (hlong : lit.Overlong) :
    ¬ Lawful source := by
  intro hlawful
  obtain ⟨behind, held, ahead, hstands, hheld⟩ := stands_of_meets hmeets
  have hnext := next_of_meets hstands hheld hmeets
  rw [if_pos (Or.inl hlong)] at hnext
  rcases hlawful.pull count with ⟨t, ht⟩ | ⟨e, he, -⟩ | hfinished
  · rw [hnext] at ht
    cases ht
  · rw [hnext] at he
    cases he
  · rw [hnext] at hfinished
    cases hfinished

/-- As long as no literal has too many digits, nothing stays in the window. -/
theorem reached_fresh {source : Bytes}
    (h : ∀ count blanks lit rest, (reached source count).Meets blanks lit rest → ¬ lit.Overlong)
    (count : Nat) :
    (reached source count).exhausted = true ∨
      ∃ behind ahead, (reached source count).Stands behind [] ahead := by
  induction count with
  | zero => exact Or.inr ⟨[], source, stands_ofBytes source⟩
  | succ count ih =>
    have hliteral := h count
    rw [reached]
    rcases ih with hexhausted | ⟨behind, ahead, hstands⟩
    · left
      rw [next_of_exhausted hexhausted]
      exact hexhausted
    · have houtcome := next_outcome hstands Held.nothing
      generalize (reached source count).next = result at houtcome
      cases houtcome with
      | finished w => exact Or.inl rfl
      | error e w => exact Or.inl rfl
      | token hl => exact Or.inr ⟨_, _, hl⟩
      | overlong hl hheld hlit =>
        obtain ⟨blanks, lit, rest, hlong, hat⟩ := hlit rfl
        rw [← hstands.view.rest_eq] at hat
        exact absurd hlong (hliteral blanks lit rest ⟨hstands.running, hat⟩)

/-- What any pull of a stream brings, and whether the stream goes on. -/
theorem next_reached (source : Bytes) (count : Nat) :
    (∃ t, (reached source count).next.1 = .token t ∧
        (reached source count).next.2.exhausted = false) ∨
      (∃ e, (reached source count).next.1 = .error e ∧
        (reached source count).next.2.exhausted = true) ∨
      ((reached source count).next.1 = .finished ∧
        (reached source count).next.2.exhausted = true) ∨
      ((reached source count).next.1 = .fault (.numeral .tooLong) ∧
        (reached source count).next.2.exhausted = false) := by
  rcases reached_cases source count with hexhausted | ⟨behind, held, ahead, hstands, hheld⟩
  · right; right; left
    rw [next_of_exhausted hexhausted]
    exact ⟨rfl, hexhausted⟩
  · have houtcome := next_outcome hstands hheld
    generalize (reached source count).next = result at houtcome
    cases houtcome with
    | finished w => exact Or.inr (Or.inr (Or.inl ⟨rfl, rfl⟩))
    | error e w => exact Or.inr (Or.inl ⟨e, rfl, rfl⟩)
    | token hl => exact Or.inl ⟨_, rfl, hl.running⟩
    | overlong hl => exact Or.inr (Or.inr (Or.inr ⟨rfl, hl.running⟩))

/-- A text is lawful if no literal of too many digits is met in it. -/
theorem lawful_of_not_overlong {source : Bytes}
    (h : ∀ count blanks lit rest, (reached source count).Meets blanks lit rest → ¬ lit.Overlong) :
    Lawful source where
  pull := by
    intro count
    rcases reached_fresh h count with hexhausted | ⟨behind, ahead, hstands⟩
    · right; right
      rw [next_of_exhausted hexhausted]
    · have hliteral := h count
      have houtcome := next_outcome hstands Held.nothing
      generalize (reached source count).next = result at houtcome
      cases houtcome with
      | finished w => exact Or.inr (Or.inr rfl)
      | error e w => exact Or.inr (Or.inl ⟨e, rfl, rfl⟩)
      | token => exact Or.inl ⟨_, rfl⟩
      | overlong hl hheld hlit =>
        obtain ⟨blanks, lit, rest, hlong, hat⟩ := hlit rfl
        rw [← hstands.view.rest_eq] at hat
        exact absurd hlong (hliteral blanks lit rest ⟨hstands.running, hat⟩)
  literal := by
    intro count blanks lit rest hmeets
    rcases reached_fresh h count with hexhausted | ⟨behind, ahead, hstands⟩
    · rw [hmeets.1] at hexhausted
      cases hexhausted
    · rw [next_of_meets_fresh hstands hmeets (heldBlanks_nil blanks),
        if_neg (h count blanks lit rest hmeets)]

/--
**A text is lawful just if no literal of more digits than are read is met in it.** Every other pull
does as it should; a pull at such a literal, or at a literal that directly follows one, fails
without a token error and without ending the stream.
-/
theorem lawful_iff (source : Bytes) :
    (Lawful source ↔
      ∀ count blanks lit rest, (reached source count).Meets blanks lit rest → ¬ lit.Overlong) ∧
    ∀ count, let l := reached source count
      ((∃ t, l.next.1 = .token t ∧ l.next.2.exhausted = false) ∨
        (∃ e, l.next.1 = .error e ∧ l.next.2.exhausted = true) ∨
        (l.next.1 = .finished ∧ l.next.2.exhausted = true) ∨
        (l.next.1 = .fault (.numeral .tooLong) ∧ l.next.2.exhausted = false)) ∧
      ∀ blanks lit rest, l.Meets blanks lit rest → l.next.1 =
        if lit.Overlong ∨ l.window.start < l.window.stop ∧ blanks = [] then
          .fault (.numeral .tooLong)
        else if Fits lit.value then .token ⟨l.spanAhead blanks lit, .number lit.value⟩
        else .error (.outOfRange lit.text (l.spanAhead blanks lit)) := by
  refine ⟨⟨?_, lawful_of_not_overlong⟩, ?_⟩
  · intro hlawful count blanks lit rest hmeets hlong
    exact not_lawful_of_meets hmeets hlong hlawful
  · intro count l
    refine ⟨next_reached source count, ?_⟩
    intro blanks lit rest hmeets
    obtain ⟨behind, held, ahead, hstands, hheld⟩ := stands_of_meets hmeets
    have hholds : l.window.start < l.window.stop ↔ held ≠ [] := by
      rw [hstands.view.start_eq, hstands.view.stop_eq, ← length_encode_pos_iff]
      omega
    rw [next_of_meets hstands hheld hmeets]
    simp only [hholds]
    rfl

/-- The literal of one zero more than `count`. -/
def zeros (count : Nat) : Literal where
  negative := false
  digits := List.replicate (count + 1) '0'
  nonempty := List.cons_ne_nil _ _
  all_digits := by
    intro c hc
    rw [List.eq_of_mem_replicate hc]
    decide

theorem overlong_zeros {count : Nat} (h : Numeral.digitLimit ≤ count) : (zeros count).Overlong := by
  show Numeral.digitLimit < (List.replicate (count + 1) '0').length
  rw [List.length_replicate]
  exact Nat.lt_succ_of_le h

theorem encode_zeros (count : Nat) :
    encode (zeros count).text = List.replicate (count + 1) 0x30 := by
  show encode (List.replicate (count + 1) '0') = _
  rw [encode_ascii, List.map_replicate]
  · rfl
  · intro c hc
    rw [List.eq_of_mem_replicate hc]
    decide

/-- A zero that is written with too many digits fits in 64 bits, but is not brought. -/
theorem not_lawful_replicate {count : Nat} (hcount : Numeral.digitLimit ≤ count) :
    ¬ Lawful (List.replicate (count + 1) 0x30) := by
  rw [← encode_zeros]
  have hmeets : (reached (encode (zeros count).text) 0).Meets [] (zeros count) [] := by
    refine ⟨rfl, ?_, nofun, stops_nil isDigit, rfl⟩
    show (ofBytes (encode (zeros count).text)).window.rest = _
    rw [(stands_ofBytes _).view.rest_eq, encode_nil, List.nil_append, List.append_nil]
  exact not_lawful_of_meets hmeets (overlong_zeros hcount)

theorem not_lawful_zeros : ¬ Lawful (List.replicate 4301 0x30) :=
  not_lawful_replicate (by decide)

end Arith.Lexer
