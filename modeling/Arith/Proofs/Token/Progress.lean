import Arith.Proofs.Token.Shifting

/-!
# Streams come to an end

A pull that leaves a stream running moves the end of its window (`stop_lt_of_next`). This is so
whatever the window holds: a numeral of too many digits stays in it, and the next pull goes on
behind it. So the bytes of a text bound the pulls that leave its stream running
(`runningPulls_le`). A stream that is exhausted stays as it is (`later_of_exhausted`).
-/

namespace Arith.Lexer

open Utf8
open Numeral (Literal)

/-! ## One pull -/

/-- A pull that leaves a stream running moves the end of the window. -/
theorem stop_lt_of_next {l : Lexer} (h : l.next.2.exhausted = false) :
    l.window.stop < l.next.2.window.stop := by
  have hshorter := next_progress h
  have hlength := (reaches_next l).length_rest
  omega

/-- A stream is exhausted by a pull that finds the end or fails with a token error, and by no other
one. -/
theorem exhausted_next_iff (l : Lexer) :
    l.next.2.exhausted = true ↔ l.next.1 = .finished ∨ ∃ e, l.next.1 = .error e := by
  cases hl : l.exhausted with
  | true =>
    rw [next_of_exhausted hl]
    exact ⟨fun _ => Or.inl rfl, fun _ => hl⟩
  | false =>
    rw [next_eq hl]
    cases scanToken l.window with
    | ok found w => cases found <;> simp
    | error f w => cases f <;> simp

/-! ## Many pulls -/

theorem later_add (l : Lexer) (pulled more : Nat) :
    l.later (pulled + more) = (l.later pulled).later more := by
  induction more with
  | zero => rfl
  | succ more ih => rw [← Nat.add_assoc, later, later, ih]

/-- A stream that is exhausted stays as it is. -/
theorem later_of_exhausted {l : Lexer} (h : l.exhausted = true) (pulled : Nat) :
    l.later pulled = l := by
  induction pulled with
  | zero => rfl
  | succ pulled ih => rw [later, ih, next_of_exhausted h]

/-- A stream that goes on went on before. -/
theorem running_of_succ {l : Lexer} {pulled : Nat}
    (h : (l.later (pulled + 1)).exhausted = false) : (l.later pulled).exhausted = false := by
  cases hpulled : (l.later pulled).exhausted with
  | false => rfl
  | true =>
    rw [later, next_of_exhausted hpulled] at h
    exact hpulled.symm.trans h

/-- How many of the first pulls of a stream leave it running. -/
def runningPulls (l : Lexer) (count : Nat) : Nat :=
  (List.range count).countP fun pulled => !(l.later (pulled + 1)).exhausted

theorem runningPulls_succ (l : Lexer) (count : Nat) :
    l.runningPulls (count + 1) =
      l.runningPulls count + if (l.later (count + 1)).exhausted = false then 1 else 0 := by
  unfold runningPulls
  rw [List.range_succ, List.countP_append, List.countP_singleton]
  simp only [Bool.not_eq_true']

/-- The end of the window has moved at least once for each pull that left the stream running. -/
theorem stop_add_runningPulls_le (l : Lexer) (count : Nat) :
    l.window.stop + l.runningPulls count ≤ (l.later count).window.stop := by
  induction count with
  | zero => exact Nat.le_refl _
  | succ count ih =>
    rw [runningPulls_succ]
    split
    next hrunning =>
      have hmoved := stop_lt_of_next (l := l.later count) hrunning
      rw [later]
      omega
    next =>
      -- a pull that exhausts the stream does not move the end back
      have hkept := (reaches_next (l.later count)).stop_le
      rw [later]
      omega

/-- Not more pulls leave a stream running than bytes are left in its text. -/
theorem runningPulls_le (l : Lexer) (count : Nat) :
    l.runningPulls count ≤ l.window.rest.length := by
  have hmoved := l.stop_add_runningPulls_le count
  have hinside := (l.later count).window.inside
  rw [source_later] at hinside
  rw [Window.length_rest]
  omega

/-- As long as a stream goes on, every pull has left it running. -/
theorem runningPulls_of_running {l : Lexer} {count : Nat} (h : (l.later count).exhausted = false) :
    l.runningPulls count = count := by
  induction count with
  | zero => rfl
  | succ count ih => rw [runningPulls_succ, ih (running_of_succ h), if_pos h]

/-- A stream is exhausted by one more pull than bytes are left in its text. -/
theorem exhausted_later (l : Lexer) : (l.later (l.window.rest.length + 1)).exhausted = true := by
  rw [← Bool.not_eq_false]
  intro hrunning
  have hbound := l.runningPulls_le (l.window.rest.length + 1)
  rw [runningPulls_of_running hrunning] at hbound
  exact Nat.not_succ_le_self _ hbound

/-! ## What stays in the window -/

variable {l : Lexer} {behind rest : Bytes} {held : List Char}

/-- A literal of too many digits stays in the window. -/
theorem next_overlong {lit : Literal} (h : l.Stands behind [] (encode lit.text ++ rest))
    (hlong : lit.Overlong) (hrest : Stops isDigit rest) (hsound : frontFault? rest = none) :
    ∃ l' : Lexer, l'.Stands behind lit.text rest ∧ l.next = (.fault (.numeral .tooLong), l') := by
  have hstands : l.Stands behind [] (encode [] ++ (encode lit.text ++ rest)) := h
  have hnext := next_cut hstands nofun (Literal.stops_isBlank lit rest) (Cut.literal lit hrest)
    rfl (List.nil_append _)
  unfold verdict at hnext
  rw [hsound] at hnext
  dsimp only at hnext
  rw [numberOf_literal, if_pos hlong] at hnext
  exact hnext

/-- What stays in the window is brought with a token of one character behind it. -/
theorem next_single {c : Char} (h : l.Stands behind held (encode [c] ++ rest))
    (hblank : isBlank c = false) (hcut : Cut (.single c) [c] rest) :
    ∃ l' : Lexer, l'.Stands (behind ++ encode (held ++ [c])) [] rest ∧
      l.next = (.token ⟨.ofLength behind.length (encode (held ++ [c])).length, classifySingle c⟩,
        l') := by
  have hstands : l.Stands behind held (encode [] ++ (encode [c] ++ rest)) := h
  have hstops : Stops isBlank (encode [c] ++ rest) := by
    rw [encode_cons, List.append_assoc, stops_encodeCode]
    exact hblank
  exact next_cut hstands nofun hstops hcut rfl rfl

/-! ## The stream of a text -/

/--
**The stream of a text is finite, and stays finished.** Every pull that leaves it running, also one
that fails, has moved the end of the window, so not more pulls than the text has bytes do, and one
more exhausts it. What exhausts it is a pull that finds the end or fails with a token error. From
then on every pull finds the end, and leaves the stream and its window as they are.
-/
theorem later_finite (source : Bytes) :
    let l := ofBytes source
    (∀ pulled, (l.later (pulled + 1)).exhausted = false →
      (l.later pulled).window.stop < (l.later (pulled + 1)).window.stop) ∧
    (∀ count, l.runningPulls count ≤ source.length) ∧
    (l.later (source.length + 1)).exhausted = true ∧
    (∀ pulled, (l.later (pulled + 1)).exhausted = true ↔
      (l.later pulled).next.1 = .finished ∨ ∃ e, (l.later pulled).next.1 = .error e) ∧
    ∀ pulled, (l.later pulled).exhausted = true → ∀ more,
      (l.later (pulled + more)).next = (.finished, l.later pulled) := by
  intro l
  have hrest : l.window.rest = source := (stands_ofBytes source).view.rest_eq
  refine ⟨fun _ => stop_lt_of_next, ?_, ?_, fun pulled => exhausted_next_iff _, ?_⟩
  · intro count
    rw [← hrest]
    exact l.runningPulls_le count
  · rw [← hrest]
    exact l.exhausted_later
  · intro pulled hexhausted more
    rw [later_add, later_of_exhausted hexhausted]
    exact next_of_exhausted hexhausted

/-- Of 4301 zeros and a minus sign, a pull fails at the zeros and leaves them in the window, the next
one brings the sign with them, and the third one finds the end. -/
theorem later_finite_zeros :
    let source := encode ((zeros 4300).text ++ ['-'])
    let l := ofBytes source
    l.next.1 = .fault (.numeral .tooLong) ∧ (l.later 1).exhausted = false ∧
      l.window.stop < (l.later 1).window.stop ∧
      (l.later 1).next.1 = .token ⟨.ofLength 0 4302, .symbol .minus⟩ ∧
      (l.later 2).exhausted = false ∧ (l.later 1).window.stop < (l.later 2).window.stop ∧
      (l.later 3).exhausted = true ∧
      ∀ more, (l.later (3 + more)).next = (.finished, l.later 3) := by
  intro source l
  obtain ⟨hprogress, -, -, -, hstays⟩ := later_finite source
  have hlong : (zeros 4300).Overlong := overlong_zeros (by decide)
  have hlength : (encode ((zeros 4300).text ++ ['-'])).length = 4302 := by
    rw [encode_append, List.length_append, encode_zeros, List.length_replicate]
    rfl
  have hl : l.Stands [] [] (encode (zeros 4300).text ++ encode ['-']) := by
    rw [← encode_append]
    exact stands_ofBytes source
  have hminus : Stops isDigit (encode ['-']) := stops_encodeCode.2 (by decide)
  obtain ⟨l₁, hl₁, hfirst⟩ := next_overlong hl hlong hminus (frontFault?_encode _)
  rw [← List.append_nil (encode ['-'])] at hl₁
  obtain ⟨l₂, hl₂, hsecond⟩ := next_single hl₁ (by decide)
    (Cut.single (by decide) (by decide) fun _ => stops_nil _)
  have hl₂' : l₂.Stands _ [] (encode []) := hl₂
  obtain ⟨w, hthird⟩ := next_end hl₂' nofun
  have hlater₁ : l.later 1 = l₁ := by rw [later, later, hfirst]
  have hlater₂ : l.later 2 = l₂ := by rw [later, hlater₁, hsecond]
  have hlater₃ : l.later 3 = ⟨w, true⟩ := by rw [later, hlater₂, hthird]
  have hrunning₁ : (l.later 1).exhausted = false := by
    rw [hlater₁]
    exact hl₁.running
  have hrunning₂ : (l.later 2).exhausted = false := by
    rw [hlater₂]
    exact hl₂.running
  have hexhausted : (l.later 3).exhausted = true := by rw [hlater₃]
  refine ⟨by rw [hfirst], hrunning₁, hprogress 0 hrunning₁, ?_, hrunning₂, hprogress 1 hrunning₂,
    hexhausted, hstays 3 hexhausted⟩
  rw [hlater₁, hsecond]
  have hsymbol : classifySingle '-' = .symbol .minus := by decide
  rw [hlength, hsymbol]
  rfl

end Arith.Lexer
