import Arith.Proofs.Token.Tiling

/-!
# What a token is

What a token says depends on its text alone: `Denotes` tells which text stands for which lexeme, by
ranges of characters, and no text stands for two (`Denotes.unique`). Some lexemes can go on with
another character (`Continues`), and no other character makes a longer text that stands for anything
(`Denotes.continues`).

The tokens of a stream are what their texts stand for, and no longer text stands for anything where
they stand (`pulls_classified`).
-/

namespace Arith.Lexer

open Utf8 Window
open Numeral (Literal)

/-! ## Classes of texts -/

/-- The decimal digits of ASCII. -/
def Digit (c : Char) : Prop := '0' ≤ c ∧ c ≤ '9'

/-- The letters of ASCII, and the underscore. -/
def Letter (c : Char) : Prop := c = '_' ∨ 'A' ≤ c ∧ c ≤ 'Z' ∨ 'a' ≤ c ∧ c ≤ 'z'

instance (c : Char) : Decidable (Digit c) := inferInstanceAs (Decidable (_ ∧ _))

instance (c : Char) : Decidable (Letter c) := inferInstanceAs (Decidable (_ ∨ _))

/-- A minus sign or none, and digits. -/
def IsNumeral (text : List Char) : Prop :=
  ∃ sign digits, text = sign ++ digits ∧ (sign = [] ∨ sign = ['-']) ∧ digits ≠ [] ∧
    ∀ d ∈ digits, Digit d

/-- A letter, and then letters and digits. -/
def IsName (text : List Char) : Prop :=
  ∃ c tail, text = c :: tail ∧ Letter c ∧ ∀ d ∈ tail, Letter d ∨ Digit d

/-- Which text stands for which lexeme. -/
inductive Denotes : List Char → Lexeme → Prop where
  | number (lit : Literal) : Denotes lit.text (.number lit.value)
  | keyword (k : Keyword) : Denotes k.spelling.toList (.keyword k)
  | identifier {text : List Char} (hname : IsName text)
      (hfree : ∀ k : Keyword, text ≠ k.spelling.toList) :
      Denotes text (.identifier (String.ofList text))
  | symbol (s : Symbol) : Denotes [s.char] (.symbol s)
  | unknown {c : Char} (hblank : isBlank c = false) (hdigit : ¬ Digit c) (hletter : ¬ Letter c)
      (hsymbol : ∀ s : Symbol, c ≠ s.char) : Denotes [c] .unknown

/-- The characters that a token goes on with. -/
def Continues : Lexeme → Char → Prop
  | .number _, c => Digit c
  | .keyword _, c => Letter c ∨ Digit c
  | .identifier _, c => Letter c ∨ Digit c
  | .symbol .minus, c => Digit c
  | _, _ => False

variable {c : Char} {text : List Char} {lexeme lexeme' : Lexeme}

theorem isDigit_iff_digit (c : Char) : isDigit c = true ↔ Digit c := by
  rw [isDigit_iff, Digit, Char.le_def, Char.le_def, UInt32.le_iff_toNat_le, UInt32.le_iff_toNat_le]
  rfl

theorem isNameStart_iff_letter (c : Char) : isNameStart c = true ↔ Letter c := by
  rw [isNameStart_iff, Letter]
  simp only [Char.le_def, UInt32.le_iff_toNat_le]
  rfl

theorem isNameChar_iff (c : Char) : isNameChar c = true ↔ Letter c ∨ Digit c := by
  rw [isNameChar, Bool.or_eq_true, isNameStart_iff_letter, isDigit_iff_digit]

/-- No letter is a digit. -/
theorem Letter.not_digit (h : Letter c) : ¬ Digit c := by
  rw [← isNameStart_iff_letter] at h
  rw [← isDigit_iff_digit]
  intro hdigit
  rw [isNameStart_of_isDigit hdigit] at h
  cases h

/-- The numerals are the texts of literals. -/
theorem isNumeral_iff : IsNumeral text ↔ ∃ lit : Literal, lit.text = text := by
  constructor
  · rintro ⟨sign, digits, rfl, rfl | rfl, hne, hdigits⟩
    · exact ⟨⟨false, digits, hne, fun d hd => (isDigit_iff_digit d).2 (hdigits d hd)⟩, rfl⟩
    · exact ⟨⟨true, digits, hne, fun d hd => (isDigit_iff_digit d).2 (hdigits d hd)⟩, rfl⟩
  · rintro ⟨lit, rfl⟩
    have hdigits : ∀ d ∈ lit.digits, Digit d :=
      fun d hd => (isDigit_iff_digit d).1 (lit.all_digits d hd)
    unfold Literal.text
    split
    · exact ⟨['-'], lit.digits, rfl, Or.inr rfl, lit.nonempty, hdigits⟩
    · exact ⟨[], lit.digits, rfl, Or.inl rfl, lit.nonempty, hdigits⟩

/-- A literal is a digit or a minus sign, and digits. -/
theorem Literal.digits_of_text {lit : Literal} {tail : List Char} (h : lit.text = c :: tail) :
    (∀ d ∈ tail, Digit d) ∧ (Digit c ∨ c = '-' ∧ tail ≠ []) := by
  obtain ⟨htail, hc⟩ := Literal.eq_cons h
  exact ⟨fun d hd => (isDigit_iff_digit d).1 (htail d hd), hc.imp_left (isDigit_iff_digit c).1⟩

/-- No literal is a name. -/
theorem IsName.ne_literal (h : IsName text) (lit : Literal) : lit.text ≠ text := by
  obtain ⟨c, tail, rfl, hc, -⟩ := h
  intro heq
  rcases (Literal.digits_of_text heq).2 with hdigit | ⟨rfl, -⟩
  · exact hc.not_digit hdigit
  · exact absurd hc (by decide)

/-- A literal of one character is a digit. -/
theorem Literal.digit_of_singleton {lit : Literal} (h : lit.text = [c]) : Digit c := by
  rcases (Literal.digits_of_text h).2 with hdigit | ⟨-, hne⟩
  · exact hdigit
  · exact absurd rfl hne

/-- A name of one character is a letter. -/
theorem IsName.letter_of_singleton (h : IsName [c]) : Letter c := by
  obtain ⟨_, _, heq, hc, -⟩ := h
  obtain ⟨rfl, -⟩ := List.cons.inj heq
  exact hc

/-- What begins a name and what goes on with it are a name. -/
theorem isName_cons {tail : List Char} (hstart : isNameStart c = true)
    (htail : ∀ d ∈ tail, isNameChar d = true) : IsName (c :: tail) :=
  ⟨c, tail, rfl, (isNameStart_iff_letter c).1 hstart,
    fun d hd => (isNameChar_iff d).1 (htail d hd)⟩

/-- The reserved words are names. -/
theorem isName_spelling (k : Keyword) : IsName k.spelling.toList := by
  cases k with
  | define =>
    show IsName ('d' :: ['e', 'f'])
    exact isName_cons (by decide) (List.all_eq_true.1 (by decide))
  | external =>
    show IsName ('e' :: ['x', 't', 'e', 'r', 'n'])
    exact isName_cons (by decide) (List.all_eq_true.1 (by decide))

theorem not_digit_char (s : Symbol) : ¬ Digit s.char := by
  cases s <;> decide

theorem not_letter_char (s : Symbol) : ¬ Letter s.char := by
  cases s <;> decide

/-! ## One text, one lexeme -/

/-- A reserved word is found by its spelling only. -/
theorem ofSpelling?_eq_some {name : String} {k : Keyword} (h : Keyword.ofSpelling? name = some k) :
    name = k.spelling := by
  have hfound := List.find?_some h
  exact (eq_of_beq hfound).symm

/-- A symbol is found by its character only. -/
theorem ofChar?_eq_some {s : Symbol} (h : Symbol.ofChar? c = some s) : c = s.char := by
  have hfound := List.find?_some h
  exact (eq_of_beq hfound).symm

/-- A name is classified by whether it is reserved. -/
theorem denotes_classifyName (h : IsName text) : Denotes text (classifyName text) := by
  unfold classifyName
  dsimp only
  split
  next k hk =>
    have htext : text = k.spelling.toList := by
      rw [← ofSpelling?_eq_some hk, String.toList_ofList]
    rw [htext]
    exact Denotes.keyword k
  next hnone =>
    refine Denotes.identifier h ?_
    rintro k rfl
    rw [String.ofList_toList, Keyword.ofSpelling?_spelling] at hnone
    cases hnone

/-- A character that begins nothing else is a symbol or unknown. -/
theorem denotes_classifySingle (hblank : isBlank c = false) (hdigit : ¬ Digit c)
    (hletter : ¬ Letter c) : Denotes [c] (classifySingle c) := by
  unfold classifySingle
  split
  next s hs =>
    rw [ofChar?_eq_some hs]
    exact Denotes.symbol s
  next hnone =>
    refine Denotes.unknown hblank hdigit hletter ?_
    rintro s rfl
    rw [Symbol.ofChar?_char] at hnone
    cases hnone

namespace Denotes

/-- The text of a literal stands for its number. -/
theorem eq_number {lit : Literal} (h : Denotes lit.text lexeme) : lexeme = .number lit.value := by
  generalize htext : lit.text = text at h
  cases h with
  | number lit' => rw [Literal.text_injective htext]
  | keyword k => exact absurd htext ((isName_spelling k).ne_literal lit)
  | identifier hname _ => exact absurd htext (hname.ne_literal lit)
  | symbol s => exact absurd (Literal.digit_of_singleton htext) (not_digit_char s)
  | unknown _ hdigit _ _ => exact absurd (Literal.digit_of_singleton htext) hdigit

/-- A name stands for what it is classified as. -/
theorem eq_classifyName (h : Denotes text lexeme) (hname : IsName text) :
    lexeme = classifyName text := by
  unfold classifyName
  dsimp only
  cases h with
  | number lit => exact absurd rfl (hname.ne_literal lit)
  | keyword k => rw [String.ofList_toList, Keyword.ofSpelling?_spelling]
  | identifier _ hfree =>
    split
    next k hk =>
      refine absurd ?_ (hfree k)
      rw [← ofSpelling?_eq_some hk, String.toList_ofList]
    next => rfl
  | symbol s => exact absurd hname.letter_of_singleton (not_letter_char s)
  | unknown _ _ hletter _ => exact absurd hname.letter_of_singleton hletter

/-- A character that begins nothing else stands for what it is classified as. -/
theorem eq_classifySingle (h : Denotes [c] lexeme) (hdigit : ¬ Digit c) (hletter : ¬ Letter c) :
    lexeme = classifySingle c := by
  unfold classifySingle
  generalize htext : [c] = text at h
  cases h with
  | number lit => exact absurd (Literal.digit_of_singleton htext.symm) hdigit
  | keyword k =>
    have hname := isName_spelling k
    rw [← htext] at hname
    exact absurd hname.letter_of_singleton hletter
  | identifier hname _ =>
    rw [← htext] at hname
    exact absurd hname.letter_of_singleton hletter
  | symbol s =>
    cases htext
    rw [Symbol.ofChar?_char]
  | unknown _ _ _ hsymbol =>
    cases htext
    split
    next s hs => exact absurd (ofChar?_eq_some hs) (hsymbol s)
    next => rfl

/-- **No text stands for two lexemes.** -/
theorem unique (h : Denotes text lexeme) (h' : Denotes text lexeme') : lexeme = lexeme' := by
  cases h with
  | number lit => exact h'.eq_number.symm
  | keyword k =>
    have hname := isName_spelling k
    rw [h'.eq_classifyName hname]
    exact (Denotes.keyword k).eq_classifyName hname
  | identifier hname hfree =>
    rw [h'.eq_classifyName hname]
    exact (Denotes.identifier hname hfree).eq_classifyName hname
  | symbol s =>
    rw [h'.eq_classifySingle (not_digit_char s) (not_letter_char s)]
    exact (Denotes.symbol s).eq_classifySingle (not_digit_char s) (not_letter_char s)
  | unknown hblank hdigit hletter hsymbol =>
    rw [h'.eq_classifySingle hdigit hletter]
    exact (Denotes.unknown hblank hdigit hletter hsymbol).eq_classifySingle hdigit hletter

/-- A text of two characters or more is a literal or a name. -/
theorem of_mem_tail {tail : List Char} {d : Char} (h : Denotes (c :: tail) lexeme) (hd : d ∈ tail) :
    (Digit c ∨ c = '-') ∧ Digit d ∨ Letter c ∧ (Letter d ∨ Digit d) := by
  generalize htext : c :: tail = text at h
  have hname : IsName text → Letter c ∧ (Letter d ∨ Digit d) := by
    rintro ⟨_, _, rfl, hc, htail⟩
    cases htext
    exact ⟨hc, htail d hd⟩
  cases h with
  | number lit =>
    obtain ⟨htail, hc⟩ := Literal.digits_of_text htext.symm
    exact Or.inl ⟨hc.imp_right And.left, htail d hd⟩
  | keyword k => exact Or.inr (hname (isName_spelling k))
  | identifier h _ => exact Or.inr (hname h)
  | symbol s =>
    cases htext
    cases hd
  | unknown =>
    cases htext
    cases hd

/-- **A longer text stands for something only if the lexeme goes on so.** -/
theorem continues {d : Char} {more : List Char} (h : Denotes text lexeme)
    (hlonger : Denotes (text ++ d :: more) lexeme') : Continues lexeme d := by
  have hmem : ∀ tail : List Char, d ∈ tail ++ d :: more := by simp
  have hname : IsName text → Letter d ∨ Digit d := by
    rintro ⟨c, tail, rfl, hc, -⟩
    rcases hlonger.of_mem_tail (hmem tail) with ⟨hfirst, hd⟩ | ⟨-, hd⟩
    · exact Or.inr hd
    · exact hd
  cases h with
  | number lit =>
    obtain ⟨c, tail, htext⟩ := List.exists_cons_of_ne_nil lit.text_ne_nil
    rw [htext] at hlonger
    rcases hlonger.of_mem_tail (hmem tail) with ⟨-, hd⟩ | ⟨hc, -⟩
    · exact hd
    · rcases (Literal.digits_of_text htext).2 with hdigit | ⟨rfl, -⟩
      · exact absurd hdigit hc.not_digit
      · exact absurd hc (by decide)
  | keyword k => exact hname (isName_spelling k)
  | identifier h _ => exact hname h
  | symbol s =>
    rcases hlonger.of_mem_tail (hmem []) with ⟨hdigit | hminus, hd⟩ | ⟨hletter, -⟩
    · exact absurd hdigit (not_digit_char s)
    · -- no other symbol begins a literal
      cases s with
      | minus => exact hd
      | _ => exact absurd hminus (by decide)
    · exact absurd hletter (not_letter_char s)
  | unknown _ hdigit hletter hsymbol =>
    rcases hlonger.of_mem_tail (hmem []) with ⟨hc | hminus, -⟩ | ⟨hc, -⟩
    · exact absurd hc hdigit
    · exact absurd hminus (hsymbol .minus)
    · exact absurd hc hletter

/-- Numerals stand for numbers. -/
theorem kind_eq_number_iff (h : Denotes text lexeme) :
    lexeme.kind = .number ↔ IsNumeral text := by
  rw [isNumeral_iff]
  constructor
  · intro hkind
    cases h with
    | number lit => exact ⟨lit, rfl⟩
    | _ => cases hkind
  · rintro ⟨lit, rfl⟩
    rw [h.eq_number]
    rfl

/-- Names stand for reserved words and identifiers. -/
theorem kind_eq_name_iff (h : Denotes text lexeme) :
    lexeme.kind = .keyword ∨ lexeme.kind = .identifier ↔ IsName text := by
  constructor
  · intro hkind
    cases h with
    | keyword k => exact isName_spelling k
    | identifier hname _ => exact hname
    | _ => simp [Lexeme.kind] at hkind
  · intro hname
    rw [h.eq_classifyName hname]
    unfold classifyName
    dsimp only
    split
    · exact Or.inl rfl
    · exact Or.inr rfl

end Denotes

/-! ## The tokens of a stream -/

/--
A token says what its text stands for, and no longer text stands for anything where it stands. What
is behind it may be malformed; then no character follows.
-/
structure Classified (source : Bytes) (t : Token) (text : List Char) : Prop where
  text_eq : t.text? source = some text
  lexeme_iff : ∀ lexeme, t.lexeme = lexeme ↔ Denotes text lexeme
  number_iff : t.lexeme.kind = .number ↔ IsNumeral text
  name_iff : t.lexeme.kind = .keyword ∨ t.lexeme.kind = .identifier ↔ IsName text
  fits : ∀ n, t.lexeme = .number n → Fits n
  stops : ∀ c rest, source.drop t.span.stop = encodeCode c.toNat ++ rest → ¬ Continues t.lexeme c
  longest : ∀ longer rest lexeme, source.drop t.span.start = encode longer ++ rest →
    Denotes longer lexeme → longer.length ≤ text.length

variable {offset start : Nat} {source rest : Bytes} {shape : Shape} {blanks : List Char}
  {t : Token} {tokens : List Token}

/-- A literal is read as its number. -/
theorem eq_of_verdict_literal {lit : Literal}
    (h : verdict .literal start lit.text rest = .ok lexeme) : lexeme = .number lit.value := by
  unfold verdict at h
  cases hfront : frontFault? rest with
  | some m =>
    rw [hfront] at h
    cases h
  | none =>
    rw [hfront] at h
    dsimp only at h
    rw [numberOf_literal] at h
    split at h
    · cases h
    · split at h
      · cases h
        rfl
      · cases h

/-- A name is read as what it is classified as. -/
theorem eq_of_verdict_name (h : verdict .name start text rest = .ok lexeme) :
    lexeme = classifyName text := by
  unfold verdict at h
  cases hfront : frontFault? rest with
  | some m =>
    rw [hfront] at h
    cases h
  | none =>
    rw [hfront] at h
    cases h
    rfl

/-- A token says what its text stands for. -/
theorem Lexed.denotes (h : Lexed offset blanks shape text t rest) : Denotes text t.lexeme := by
  have hverdict := h.verdict_eq
  have hblank := fun c => h.isBlank_of_mem (c := c)
  cases h.cut with
  | literal lit _ =>
    rw [eq_of_verdict_literal hverdict]
    exact Denotes.number lit
  | name hstart htail _ =>
    rw [eq_of_verdict_name hverdict]
    exact denotes_classifyName (isName_cons hstart htail)
  | @single c _ hdigit hstart _ =>
    have hlexeme : classifySingle c = t.lexeme := Except.ok.inj hverdict
    rw [← Bool.not_eq_true, isDigit_iff_digit] at hdigit
    rw [← Bool.not_eq_true, isNameStart_iff_letter] at hstart
    rw [← hlexeme]
    exact denotes_classifySingle (hblank c List.mem_cons_self) hdigit hstart

/-- Behind a token no character stands that it goes on with. -/
theorem Lexed.not_continues {after : Bytes}
    (h : Lexed offset blanks shape text t (encodeCode c.toNat ++ after)) :
    ¬ Continues t.lexeme c := by
  have hverdict := h.verdict_eq
  cases h.cut with
  | literal lit hrest =>
    rw [stops_encodeCode, ← Bool.not_eq_true, isDigit_iff_digit] at hrest
    rw [eq_of_verdict_literal hverdict]
    exact hrest
  | name hstart htail hrest =>
    rw [stops_encodeCode, ← Bool.not_eq_true, isNameChar_iff] at hrest
    rw [eq_of_verdict_name hverdict]
    -- reserved words and identifiers go on alike
    unfold classifyName
    dsimp only
    split <;> exact hrest
  | @single d _ _ _ hminus =>
    have hlexeme : classifySingle d = t.lexeme := Except.ok.inj hverdict
    rw [← hlexeme]
    unfold classifySingle
    split
    next s hs =>
      cases s with
      | minus =>
        have hrest := hminus (ofChar?_eq_some hs)
        rw [stops_encodeCode, ← Bool.not_eq_true, isDigit_iff_digit] at hrest
        exact hrest
      | _ => exact not_false
    next => exact not_false

/-- No longer text stands for anything where a token has been read. -/
theorem Lexed.length_le {after : Bytes} {longer : List Char}
    (h : Lexed offset blanks shape text t rest)
    (hafter : encode text ++ rest = encode longer ++ after) (hlonger : Denotes longer lexeme) :
    longer.length ≤ text.length := by
  refine Nat.le_of_not_lt fun hlt => ?_
  obtain ⟨c, more, rfl, rfl⟩ := exists_more_of_encode hafter hlt
  exact h.not_continues (h.denotes.continues hlonger)

/--
**A token is classified by its text, and its text is the longest one.** The text of a token that a
stream brings stands for its lexeme and for no other, numbers fit in 64 bits, and no character
follows that the token goes on with.
-/
theorem pulls_classified {stream : List Pull}
    (h : (ofBytes source).pulls = tokens.map .token ++ stream) (ht : t ∈ tokens) :
    ∃ text, Classified source t text := by
  obtain ⟨left, hlexed, -⟩ := exists_left_of_pulls (stands_ofBytes source) h
  obtain ⟨before, rest, blanks, text, shape, hsource, hlexed⟩ := hlexed.exists_lexed rfl ht
  rw [List.nil_append] at hsource
  have hdenotes := hlexed.denotes
  obtain ⟨upto, hupto, hstop⟩ := hlexed.exists_before
  refine ⟨text, ?_, ?_, hdenotes.kind_eq_number_iff, hdenotes.kind_eq_name_iff, ?_, ?_, ?_⟩
  · rw [hsource]
    exact hlexed.text?_eq
  · intro lexeme
    constructor
    · rintro rfl
      exact hdenotes
    · exact hdenotes.unique
  · intro n hn
    have hverdict := hlexed.verdict_eq
    rw [hn] at hverdict
    exact fits_of_verdict hverdict
  · intro c after hafter
    rw [hsource, hupto, ← hstop, List.drop_left] at hafter
    subst hafter
    exact hlexed.not_continues
  · intro longer after lexeme hafter hlonger
    rw [hsource, hlexed.start_eq, ← List.append_assoc, ← List.length_append,
      List.drop_left] at hafter
    exact hlexed.length_le hafter hlonger

/-- In "def -2x1 -é" a minus sign stands for itself only where no digit follows it. -/
theorem pulls_classified_mixed :
    let source := encode ['d', 'e', 'f', ' ', '-', '2', 'x', '1', ' ', '-', 'é']
    let tokens : List Token :=
      [⟨.ofLength 0 3, .keyword .define⟩, ⟨.ofLength 4 2, .number (-2)⟩,
        ⟨.ofLength 6 2, .identifier "x1"⟩, ⟨.ofLength 9 1, .symbol .minus⟩,
        ⟨.ofLength 10 2, .unknown⟩]
    (ofBytes source).pulls = tokens.map .token ++ [.finished] ∧
      (∃ text, Classified source ⟨.ofLength 4 2, .number (-2)⟩ text) ∧
      ∃ text, Classified source ⟨.ofLength 9 1, .symbol .minus⟩ text := by
  intro source tokens
  have hpulls : (ofBytes source).pulls = tokens.map .token ++ [.finished] := by cbv
  exact ⟨hpulls, pulls_classified hpulls (by decide), pulls_classified hpulls (by decide)⟩

end Arith.Lexer
