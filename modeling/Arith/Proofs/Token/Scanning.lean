import Arith.Proofs.Text.Literal
import Arith.Proofs.Window.View
import Arith.Token.Lexer

/-!
# One token of the stream

Behind white space a text has ended, is malformed, or begins with a token: a literal, a name or a
single character, which goes on as long as characters fit (`Cut`, `cut_cases`). What a pull brings
is decided by that token alone, and by what the window held before (`verdict`,
`scanToken_of_cut`).
-/

namespace Arith.Lexer

open Utf8 Window
open Numeral (Literal)

/-! ## The first token of a text -/

/-- The three sorts of tokens, as they are read. -/
inductive Shape where
  | literal
  | name
  | single (c : Char)
  deriving DecidableEq, Repr

/-- A sort of token, the longest text of this sort at the front of some bytes, and the rest. -/
inductive Cut : Shape → List Char → Bytes → Prop where
  | literal (l : Literal) {rest : Bytes} (hrest : Stops isDigit rest) : Cut .literal l.text rest
  | name {c : Char} {tail : List Char} {rest : Bytes} (hstart : isNameStart c = true)
      (htail : ∀ d ∈ tail, isNameChar d = true) (hrest : Stops isNameChar rest) :
      Cut .name (c :: tail) rest
  | single {c : Char} {rest : Bytes} (hdigit : isDigit c = false) (hstart : isNameStart c = false)
      (hminus : c = '-' → Stops isDigit rest) : Cut (.single c) [c] rest

theorem Cut.ne_nil {shape : Shape} {text : List Char} {rest : Bytes} (h : Cut shape text rest) :
    text ≠ [] := by
  cases h with
  | literal l _ => exact l.text_ne_nil
  | name => exact List.cons_ne_nil _ _
  | single => exact List.cons_ne_nil _ _

/-- A name begins with the underscore or a letter of ASCII. -/
theorem isNameStart_iff (c : Char) : isNameStart c = true ↔
    c = '_' ∨ 0x41 ≤ c.toNat ∧ c.toNat ≤ 0x5A ∨ 0x61 ≤ c.toNat ∧ c.toNat ≤ 0x7A := by
  show (c == '_' || (decide (0x41 ≤ c.val ∧ c.val ≤ 0x5A) ||
    decide (0x61 ≤ c.val) && decide (c.val ≤ 0x7A))) = true ↔ _
  simp only [Bool.or_eq_true, beq_iff_eq, Bool.and_eq_true, decide_eq_true_eq,
    UInt32.le_iff_toNat_le]
  rfl

/-- No digit begins a name. -/
theorem isNameStart_of_isDigit {c : Char} (h : isDigit c = true) : isNameStart c = false := by
  rw [isDigit_iff] at h
  rw [← Bool.not_eq_true, isNameStart_iff]
  rintro (rfl | hupper | hlower)
  · exact absurd h (by decide)
  · omega
  · omega

/-- No white space stands in a name. -/
theorem isBlank_of_isNameChar {c : Char} (h : isNameChar c = true) : isBlank c = false := by
  rw [isNameChar, Bool.or_eq_true] at h
  rcases h with hstart | hdigit
  · rw [isNameStart_iff] at hstart
    rcases hstart with rfl | hletter
    · decide
    · simp [isBlank]
      omega
  · exact isBlank_of_isDigit hdigit

/-- **A text has ended, is malformed at the front, or begins with a token.** -/
theorem cut_cases (bytes : Bytes) :
    bytes = [] ∨ (∃ m, frontFault? bytes = some m) ∨
      ∃ shape text rest, bytes = encode text ++ rest ∧ Cut shape text rest := by
  rcases front_cases bytes with rfl | hm | ⟨c, after, rfl⟩
  · exact Or.inl rfl
  · exact Or.inr (Or.inl hm)
  · refine Or.inr (Or.inr ?_)
    by_cases hdigit : isDigit c = true
    · obtain ⟨digits, rest, rfl, hdigits, hrest⟩ := exists_run isDigit after
      refine ⟨.literal, c :: digits, rest, by simp, ?_⟩
      exact Cut.literal ⟨false, c :: digits, List.cons_ne_nil _ _,
        List.forall_mem_cons.2 ⟨hdigit, hdigits⟩⟩ hrest
    · rw [Bool.not_eq_true] at hdigit
      by_cases hstart : isNameStart c = true
      · obtain ⟨tail, rest, rfl, htail, hrest⟩ := exists_run isNameChar after
        exact ⟨.name, c :: tail, rest, by simp, Cut.name hstart htail hrest⟩
      · rw [Bool.not_eq_true] at hstart
        -- a minus sign is a token of its own unless a digit follows it
        by_cases hminus : c = '-' → Stops isDigit after
        · exact ⟨.single c, [c], after, by simp, Cut.single hdigit hstart hminus⟩
        · obtain ⟨rfl, hafter⟩ := Classical.not_imp.1 hminus
          obtain ⟨digits, rest, rfl, hdigits, hrest⟩ := exists_run isDigit after
          have hne : digits ≠ [] := by
            rintro rfl
            exact hafter hrest
          exact ⟨.literal, '-' :: digits, rest, by simp,
            Cut.literal ⟨true, digits, hne, hdigits⟩ hrest⟩

/-! ## What a token says -/

/-- What a text is as a number of 64 bits. -/
def numberOf (text : List Char) (span : Span) : Except Failure Lexeme :=
  match Numeral.read text with
  | .error f => .error (.fault (.numeral f))
  | .ok n =>
    if int64Min ≤ n ∧ n ≤ int64Max then .ok (.number n)
    else .error (.error (.outOfRange text span))

/--
What is read of a token from the offset `start` on, by its sort, the text that the window then
holds, and the bytes behind it. Malformed bytes directly behind a literal or a name are found while
it is scanned.
-/
def verdict (shape : Shape) (start : Nat) (text : List Char) (rest : Bytes) :
    Except Failure Lexeme :=
  match shape, frontFault? rest with
  | .single c, _ => .ok (classifySingle c)
  | _, some m => .error (.error (.text (.ofMalformed (start + (encode text).length) m)))
  | .literal, none => numberOf text (.ofLength start (encode text).length)
  | .name, none => .ok (classifyName text)

/-! ## The steps on a view -/

variable {w : Window} {behind ahead rest : Bytes} {held text : List Char}

/-- A step goes on with the result of its first part. -/
theorem bind_of_ok {ε σ α β : Type} {x : EStateM ε σ α} {s s' : σ} {a : α} (h : x s = .ok a s')
    (f : α → EStateM ε σ β) : (x >>= f) s = f a s' := by
  show EStateM.bind x f s = _
  rw [EStateM.bind, h]

/-- A step fails if its first part does. -/
theorem bind_of_error {ε σ α β : Type} {x : EStateM ε σ α} {s s' : σ} {e : ε}
    (h : x s = .error e s') (f : α → EStateM ε σ β) : (x >>= f) s = .error e s' := by
  show EStateM.bind x f s = _
  rw [EStateM.bind, h]

/-- A lifted step fails as the step does. -/
theorem lift_eq {α : Type} (step : Scan α) (w : Window) :
    lift step w = match step w with
      | .ok a w' => .ok a w'
      | .error f w' => .error (.ofWindowFault f) w' := by
  unfold lift EStateM.adaptExcept
  cases step w with
  | ok a w' => rfl
  | error f w' => rfl

/-- A scan in the stream of tokens. -/
theorem lift_scanWhile {test : Char → Bool} {run : List Char}
    (h : w.View behind held (encode run ++ ahead)) (hrun : ∀ c ∈ run, test c = true)
    (hahead : Stops test ahead) :
    ∃ w', w'.View behind (held ++ run) ahead ∧ lift (Window.scanWhile test) w =
      match frontFault? ahead with
      | none => .ok (decide (run ≠ [])) w'
      | some m => .error (.error (.text
          (.ofMalformed (behind.length + (encode (held ++ run)).length) m))) w' := by
  obtain ⟨w', hw', hscan⟩ := h.scanWhile hrun hahead
  refine ⟨w', hw', ?_⟩
  rw [lift_eq, hscan, ← hw'.stop_eq]
  cases frontFault? ahead with
  | none => rfl
  | some m => rfl

/-- The token that a window holds is emitted, and committed. -/
theorem emit_view (h : w.View behind held ahead) (lexeme : Lexeme) :
    ∃ w', w'.View (behind ++ encode held) [] ahead ∧
      emit lexeme w = .ok ⟨.ofLength behind.length (encode held).length, lexeme⟩ w' := by
  obtain ⟨w', hw', hadvance⟩ := h.advance
  have hlift : lift Window.advance w = .ok () w' := by rw [lift_eq, hadvance]
  refine ⟨w', hw', ?_⟩
  have hget : (get : Step Window) w = .ok w w := rfl
  rw [← h.span_eq]
  unfold emit
  rw [bind_of_ok hget, bind_of_ok hlift]
  rfl

/-- The characters that a window holds are read. -/
theorem heldText_view (h : w.View behind held ahead) : heldText w = .ok held w := by
  have hget : (get : Step Window) w = .ok w w := rfl
  unfold heldText
  rw [bind_of_ok hget, h.text?_eq]
  rfl

/-- A number is judged by the whole text that the window holds. -/
theorem number_view {digits : List Char} (h : w.View behind held (encode digits ++ rest))
    (hdigits : ∀ c ∈ digits, isDigit c = true) (hrest : Stops isDigit rest) :
    ∃ w', w'.View behind (held ++ digits) rest ∧ number w =
      match verdict .literal behind.length (held ++ digits) rest with
      | .error f => .error f w'
      | .ok lexeme => emit lexeme w' := by
  obtain ⟨w', hw', hscan⟩ := lift_scanWhile h hdigits hrest
  refine ⟨w', hw', ?_⟩
  unfold number verdict
  cases hm : frontFault? rest with
  | some m =>
    rw [hm] at hscan
    exact bind_of_error hscan _
  | none =>
    rw [hm] at hscan
    rw [bind_of_ok hscan, bind_of_ok (heldText_view hw')]
    dsimp only
    unfold numberOf
    cases Numeral.read (held ++ digits) with
    | error f => rfl
    | ok n =>
      dsimp only
      by_cases hrange : int64Min ≤ n ∧ n ≤ int64Max
      · rw [if_pos hrange, if_pos hrange]
      · rw [if_neg hrange, if_neg hrange, ← hw'.span_eq]
        rfl

/-- A name is judged by the whole text that the window holds. -/
theorem name_view {tail : List Char} (h : w.View behind held (encode tail ++ rest))
    (htail : ∀ c ∈ tail, isNameChar c = true) (hrest : Stops isNameChar rest) :
    ∃ w', w'.View behind (held ++ tail) rest ∧ name w =
      match verdict .name behind.length (held ++ tail) rest with
      | .error f => .error f w'
      | .ok lexeme => emit lexeme w' := by
  obtain ⟨w', hw', hscan⟩ := lift_scanWhile h htail hrest
  refine ⟨w', hw', ?_⟩
  unfold name verdict
  cases hm : frontFault? rest with
  | some m =>
    rw [hm] at hscan
    exact bind_of_error hscan _
  | none =>
    rw [hm] at hscan
    rw [bind_of_ok hscan, bind_of_ok (heldText_view hw')]

/-- A literal is its first character and digits. -/
theorem Literal.eq_cons {l : Literal} {c : Char} {tail : List Char} (h : l.text = c :: tail) :
    (∀ d ∈ tail, isDigit d = true) ∧ (isDigit c = true ∨ c = '-' ∧ tail ≠ []) := by
  have hall := l.all_digits
  unfold Literal.text at h
  split at h
  · obtain ⟨rfl, rfl⟩ := List.cons.inj h
    exact ⟨hall, Or.inr ⟨rfl, l.nonempty⟩⟩
  · rw [h] at hall
    obtain ⟨hc, htail⟩ := List.forall_mem_cons.1 hall
    exact ⟨htail, Or.inl hc⟩

/-- No white space begins a literal. -/
theorem Literal.stops_isBlank (l : Literal) (rest : Bytes) :
    Stops isBlank (encode l.text ++ rest) := by
  obtain ⟨c, tail, htext⟩ := List.exists_cons_of_ne_nil l.text_ne_nil
  rw [htext, encode_cons, List.append_assoc, stops_encodeCode]
  rcases (Literal.eq_cons htext).2 with hc | ⟨rfl, -⟩
  · exact isBlank_of_isDigit hc
  · decide

theorem begins_number_iff (c : Char) (w : Window) :
    (isDigit c || (c == '-' && w.peek isDigit)) = true ↔
      isDigit c = true ∨ c = '-' ∧ w.peek isDigit = true := by
  rw [Bool.or_eq_true, Bool.and_eq_true, beq_iff_eq]

/-- **The token that begins with a character takes what belongs to it.** The window holds the
character already. -/
theorem tokenFrom_view {shape : Shape} {c : Char} {tail : List Char}
    (h : w.View behind (held ++ [c]) (encode tail ++ rest)) (hcut : Cut shape (c :: tail) rest) :
    ∃ w', w'.View behind (held ++ c :: tail) rest ∧ tokenFrom c w =
      match verdict shape behind.length (held ++ c :: tail) rest with
      | .error f => .error f w'
      | .ok lexeme => emit lexeme w' := by
  have hget : (get : Step Window) w = .ok w w := rfl
  have hheld : held ++ c :: tail = held ++ [c] ++ tail := by simp
  rw [hheld]
  unfold tokenFrom
  rw [bind_of_ok hget]
  generalize htext : c :: tail = text at hcut
  cases hcut with
  | literal l hrest =>
    -- the first character is a digit, or a minus sign that a digit is seen behind
    obtain ⟨htail, hc⟩ := Literal.eq_cons htext.symm
    have hnumber : (isDigit c || (c == '-' && w.peek isDigit)) = true := by
      rw [begins_number_iff]
      rcases hc with hc | ⟨rfl, hne⟩
      · exact Or.inl hc
      · obtain ⟨d, tail, rfl⟩ := List.exists_cons_of_ne_nil hne
        have hpeek : w.peek isDigit = true := by
          rw [← Bool.not_eq_false, h.peek_eq_false_iff, encode_cons, List.append_assoc,
            stops_encodeCode, htail d List.mem_cons_self]
          nofun
        exact Or.inr ⟨rfl, hpeek⟩
    rw [if_pos hnumber]
    exact number_view h htail hrest
  | name hstart htail hrest =>
    cases htext
    have hdigit : ¬ isDigit c = true := by
      intro hdigit
      rw [isNameStart_of_isDigit hdigit] at hstart
      cases hstart
    have hnumber : ¬ (isDigit c || (c == '-' && w.peek isDigit)) = true := by
      rw [begins_number_iff]
      rintro (hd | ⟨rfl, -⟩)
      · exact hdigit hd
      · cases hstart
    rw [if_neg hnumber, if_pos hstart]
    exact name_view h htail hrest
  | single hdigit hstart hminus =>
    cases htext
    have hnumber : ¬ (isDigit c || (c == '-' && w.peek isDigit)) = true := by
      rw [begins_number_iff]
      rintro (hd | ⟨rfl, hpeek⟩)
      · rw [hdigit] at hd
        cases hd
      · rw [(h.peek_eq_false_iff isDigit).2 (hminus rfl)] at hpeek
        cases hpeek
    rw [if_neg hnumber, if_neg (by rw [hstart]; exact Bool.false_ne_true)]
    exact ⟨w, by simpa using h, rfl⟩

/-! ## One step of the stream -/

/-- What is behind a window when white space has been skipped. -/
def behindBlanks (behind : Bytes) (held blanks : List Char) : Bytes :=
  if blanks = [] then behind else behind ++ encode (held ++ blanks)

/-- What a window holds when white space has been skipped: white space commits it. -/
def heldBlanks (held blanks : List Char) : List Char := if blanks = [] then held else []

@[simp] theorem behindBlanks_nil (behind : Bytes) (blanks : List Char) :
    behindBlanks behind [] blanks = behind ++ encode blanks := by
  unfold behindBlanks
  split
  next h => simp [h]
  next => rfl

@[simp] theorem heldBlanks_nil (blanks : List Char) : heldBlanks [] blanks = [] := by
  unfold heldBlanks
  split <;> rfl

variable {blanks : List Char}

/-- White space is skipped, and committed with all that was held before it. -/
theorem skipBlanks_view (h : w.View behind held (encode blanks ++ ahead))
    (hblanks : ∀ c ∈ blanks, isBlank c = true) (hahead : Stops isBlank ahead)
    (hfront : frontFault? ahead = none) :
    ∃ w', w'.View (behindBlanks behind held blanks) (heldBlanks held blanks) ahead ∧
      skipBlanks w = .ok () w' := by
  obtain ⟨w', hw', hscan⟩ := lift_scanWhile h hblanks hahead
  rw [hfront] at hscan
  unfold skipBlanks behindBlanks heldBlanks
  rw [bind_of_ok hscan]
  by_cases hnil : blanks = []
  · subst hnil
    refine ⟨w', ?_, rfl⟩
    rw [if_pos rfl, if_pos rfl]
    simpa using hw'
  · obtain ⟨w'', hw'', hadvance⟩ := hw'.advance
    refine ⟨w'', ?_, ?_⟩
    · rw [if_neg hnil, if_neg hnil]
      exact hw''
    · rw [if_pos (decide_eq_true hnil), lift_eq, hadvance]

/-- Malformed bytes behind white space are found while it is skipped. -/
theorem skipBlanks_malformed (h : w.View behind held (encode blanks ++ ahead))
    (hblanks : ∀ c ∈ blanks, isBlank c = true) {m : Malformed}
    (hfront : frontFault? ahead = some m) :
    ∃ w', skipBlanks w = .error (.error (.text
      (.ofMalformed (behind.length + (encode (held ++ blanks)).length) m))) w' := by
  obtain ⟨w', -, hscan⟩ := lift_scanWhile h hblanks (stops_of_frontFault hfront)
  rw [hfront] at hscan
  exact ⟨w', bind_of_error hscan _⟩

/-- At the end of the text there is no token. -/
theorem scanToken_end (h : w.View behind held (encode blanks))
    (hblanks : ∀ c ∈ blanks, isBlank c = true) : ∃ w', scanToken w = .ok none w' := by
  rw [← List.append_nil (encode blanks)] at h
  obtain ⟨w', hw', hskip⟩ := skipBlanks_view h hblanks (stops_nil isBlank) rfl
  obtain ⟨w'', -, htake⟩ := hw'.take_end
  refine ⟨w'', ?_⟩
  rw [scanToken_eq, hskip]
  dsimp only
  rw [htake]

/-- Malformed bytes where a token should begin are a token error. -/
theorem scanToken_malformed (h : w.View behind held (encode blanks ++ ahead))
    (hblanks : ∀ c ∈ blanks, isBlank c = true) {m : Malformed}
    (hfront : frontFault? ahead = some m) :
    ∃ w', scanToken w = .error (.error (.text
      (.ofMalformed (behind.length + (encode (held ++ blanks)).length) m))) w' := by
  obtain ⟨w', hskip⟩ := skipBlanks_malformed h hblanks hfront
  refine ⟨w', ?_⟩
  rw [scanToken_eq, hskip]

/--
**The token behind white space is read**, and its verdict tells what the step brings: the token,
which is committed, or a failure, which leaves the text in the window.
-/
theorem scanToken_cut {shape : Shape}
    (h : w.View behind held (encode blanks ++ (encode text ++ rest)))
    (hblanks : ∀ c ∈ blanks, isBlank c = true) (htext : Stops isBlank (encode text ++ rest))
    (hcut : Cut shape text rest) {start : Bytes} {whole : List Char}
    (hstart : behindBlanks behind held blanks = start)
    (hwhole : heldBlanks held blanks ++ text = whole) :
    ∃ w', match verdict shape start.length whole rest with
      | .ok lexeme => w'.View (start ++ encode whole) [] rest ∧ scanToken w
          = .ok (some ⟨.ofLength start.length (encode whole).length, lexeme⟩) w'
      | .error f => w'.View start whole rest ∧ scanToken w = .error f w' := by
  subst hstart hwhole
  obtain ⟨c, tail, rfl⟩ := List.exists_cons_of_ne_nil hcut.ne_nil
  have hfront : frontFault? (encode (c :: tail) ++ rest) = none := by
    rw [encode_cons, List.append_assoc, frontFault?_encodeCode]
  obtain ⟨w₁, hw₁, hskip⟩ := skipBlanks_view h hblanks htext hfront
  rw [encode_cons, List.append_assoc] at hw₁
  obtain ⟨w₂, hw₂, htake⟩ := hw₁.take_character
  obtain ⟨w₃, hw₃, hfrom⟩ := tokenFrom_view hw₂ hcut
  have hscan := scanToken_eq w
  rw [hskip] at hscan
  dsimp only at hscan
  rw [htake] at hscan
  dsimp only at hscan
  rw [hfrom] at hscan
  cases hverdict : verdict shape _ _ rest with
  | error f =>
    rw [hverdict] at hscan
    exact ⟨w₃, hw₃, hscan⟩
  | ok lexeme =>
    obtain ⟨w₄, hw₄, hemit⟩ := emit_view hw₃ lexeme
    rw [hverdict] at hscan
    dsimp only at hscan
    rw [hemit] at hscan
    exact ⟨w₄, hw₄, hscan⟩

end Arith.Lexer
