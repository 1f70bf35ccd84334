import Arith.Proofs.Token.Scanning

/-!
# What the pulls of a stream bring

As long as every token is committed, the window of a lexer is empty between two pulls
(`Stands`). So the pulls bring tokens up to the end of the text, up to a token error, or up to a
literal of too many digits (`pulls_stands`); in a text without such a literal no pull fails
otherwise. The numbers that are brought fit in 64 bits.
-/

namespace Arith.Lexer

open Utf8 Window
open Numeral (Literal)

/-! ## Verdicts -/

/-- A number fits in 64 bits. -/
def Fits (n : Int) : Prop := int64Min ≤ n ∧ n ≤ int64Max

instance (n : Int) : Decidable (Fits n) := inferInstanceAs (Decidable (_ ∧ _))

/-- A literal is a number, unless it has too many digits or its number does not fit in 64 bits. -/
theorem numberOf_literal (l : Literal) (span : Span) :
    numberOf l.text span = if l.Overlong then .error (.fault (.numeral .tooLong))
      else if Fits l.value then .ok (.number l.value)
      else .error (.error (.outOfRange l.text span)) := by
  rw [numberOf, Numeral.read_literal]
  by_cases hlong : l.Overlong
  · rw [if_pos hlong, if_pos hlong]
  · rw [if_neg hlong, if_neg hlong]
    rfl

/-- Only literals are read as numbers, and the numbers fit in 64 bits. -/
theorem fits_of_verdict {shape : Shape} {start : Nat} {text : List Char} {rest : Bytes} {n : Int}
    (h : verdict shape start text rest = .ok (.number n)) : Fits n := by
  unfold verdict at h
  split at h
  next c _ =>
    unfold classifySingle at h
    split at h <;> cases h
  next => cases h
  next =>
    unfold numberOf at h
    split at h
    · cases h
    · split at h
      next hfits =>
        cases h
        exact hfits
      next => cases h
  next =>
    unfold classifyName at h
    dsimp only at h
    split at h <;> cases h

/-- Only numerals fail without a token error. -/
theorem eq_literal_of_verdict_fault {shape : Shape} {start : Nat} {text : List Char} {rest : Bytes}
    {f : LexFault} (h : verdict shape start text rest = .error (.fault f)) :
    shape = .literal ∧ frontFault? rest = none ∧
      ∃ g, Numeral.read text = .error g ∧ f = .numeral g := by
  unfold verdict at h
  split at h
  next => cases h
  next => cases h
  next hfront =>
    refine ⟨rfl, hfront, ?_⟩
    unfold numberOf at h
    split at h
    next g hg =>
      cases h
      exact ⟨g, hg, rfl⟩
    next =>
      split at h <;> cases h
  next => cases h

/-! ## One pull -/

/-- A lexer goes on with its window over a text as given. -/
structure Stands (l : Lexer) (behind : Bytes) (held : List Char) (ahead : Bytes) : Prop where
  running : l.exhausted = false
  view : l.window.View behind held ahead

theorem stands_ofBytes (source : Bytes) : (ofBytes source).Stands [] [] source :=
  ⟨rfl, View.ofBytes source⟩

/-- A lexer that is exhausted finds the end, and stays as it is. -/
theorem next_of_exhausted {l : Lexer} (h : l.exhausted = true) : l.next = (.finished, l) :=
  if_pos h

/-- What a lexer brings that is not exhausted. -/
theorem next_eq {l : Lexer} (h : l.exhausted = false) :
    l.next = match scanToken l.window with
      | .ok none w => (.finished, ⟨w, true⟩)
      | .ok (some t) w => (.token t, ⟨w, false⟩)
      | .error (.error e) w => (.error e, ⟨w, true⟩)
      | .error (.fault f) w => (.fault f, ⟨w, false⟩) := by
  have hrunning : ¬ l.exhausted = true := by
    rw [h]
    exact Bool.false_ne_true
  unfold next
  exact if_neg hrunning

/-- A pull does not change the text, and does not move the end of the window back. -/
theorem reaches_next (l : Lexer) : l.window.Reaches l.next.2.window := by
  have hreaches := forward_scanToken l.window
  cases hl : l.exhausted with
  | true =>
    rw [next_of_exhausted hl]
    exact .refl _
  | false =>
    rw [next_eq hl]
    cases hscan : scanToken l.window with
    | ok found w =>
      rw [hscan] at hreaches
      cases found <;> exact hreaches
    | error f w =>
      rw [hscan] at hreaches
      cases f <;> exact hreaches

variable {l : Lexer} {behind ahead rest : Bytes} {held text blanks : List Char}

/-- At the end of the text the stream ends. -/
theorem next_end (h : l.Stands behind held (encode blanks))
    (hblanks : ∀ c ∈ blanks, isBlank c = true) :
    ∃ w, l.next = (.finished, ⟨w, true⟩) := by
  obtain ⟨w, hscan⟩ := scanToken_end h.view hblanks
  exact ⟨w, by rw [next_eq h.running, hscan]⟩

/-- Malformed bytes behind white space end the stream with an error about them. -/
theorem next_malformed_eq (h : l.Stands behind held (encode blanks ++ ahead))
    (hblanks : ∀ c ∈ blanks, isBlank c = true) {m : Malformed}
    (hfront : frontFault? ahead = some m) :
    ∃ w, l.next = (.error (.text
      (.ofMalformed (behind.length + (encode (held ++ blanks)).length) m)), ⟨w, true⟩) := by
  obtain ⟨w, hscan⟩ := scanToken_malformed h.view hblanks hfront
  exact ⟨w, by rw [next_eq h.running, hscan]⟩

/-- Malformed bytes behind white space end the stream with an error. -/
theorem next_malformed (h : l.Stands behind held (encode blanks ++ ahead))
    (hblanks : ∀ c ∈ blanks, isBlank c = true) {m : Malformed}
    (hfront : frontFault? ahead = some m) :
    ∃ e w, l.next = (.error e, ⟨w, true⟩) := by
  obtain ⟨w, hnext⟩ := next_malformed_eq h hblanks hfront
  exact ⟨_, w, hnext⟩

/-- What the verdict on a token makes of the stream. -/
theorem next_cut {shape : Shape} (h : l.Stands behind held (encode blanks ++ (encode text ++ rest)))
    (hblanks : ∀ c ∈ blanks, isBlank c = true) (htext : Stops isBlank (encode text ++ rest))
    (hcut : Cut shape text rest) {start : Bytes} {whole : List Char}
    (hstart : behindBlanks behind held blanks = start)
    (hwhole : heldBlanks held blanks ++ text = whole) :
    match verdict shape start.length whole rest with
    | .ok lexeme => ∃ l', l'.Stands (start ++ encode whole) [] rest ∧
        l.next = (.token ⟨.ofLength start.length (encode whole).length, lexeme⟩, l')
    | .error (.error e) => ∃ w, l.next = (.error e, ⟨w, true⟩)
    | .error (.fault f) => ∃ l', l'.Stands start whole rest ∧ l.next = (.fault f, l') := by
  obtain ⟨w, hscan⟩ := scanToken_cut h.view hblanks htext hcut hstart hwhole
  have hnext := next_eq h.running
  cases hverdict : verdict shape start.length whole rest with
  | ok lexeme =>
    rw [hverdict] at hscan
    rw [hscan.2] at hnext
    exact ⟨⟨w, false⟩, ⟨rfl, hscan.1⟩, hnext⟩
  | error f =>
    rw [hverdict] at hscan
    rw [hscan.2] at hnext
    cases f with
    | error e => exact ⟨w, hnext⟩
    | fault f => exact ⟨⟨w, false⟩, ⟨rfl, hscan.1⟩, hnext⟩

/-- Every text is white space and then an end, malformed bytes or a token. -/
theorem exists_blanks (bytes : Bytes) :
    ∃ (blanks : List Char) (ahead : Bytes), bytes = encode blanks ++ ahead ∧
      (∀ c ∈ blanks, isBlank c = true) ∧ Stops isBlank ahead ∧
      (ahead = [] ∨ (∃ m, frontFault? ahead = some m) ∨
        ∃ shape text rest, ahead = encode text ++ rest ∧ Cut shape text rest) := by
  obtain ⟨blanks, ahead, hbytes, hblanks, hahead⟩ := exists_run isBlank bytes
  exact ⟨blanks, ahead, hbytes, hblanks, hahead, cut_cases ahead⟩

/-! ## What stays in a window -/

/--
What a window holds between two pulls: nothing, or a literal of too many digits that a pull failed
at, with all that was added to it since. No digit stands behind it.
-/
inductive Held (ahead : Bytes) : List Char → Prop where
  | nothing : Held ahead []
  | overlong {lit : Literal} (hlong : lit.Overlong) {more : List Char}
      (hmore : more = [] ∨ ∃ tail, more = '-' :: tail) (hahead : Stops isDigit ahead) :
      Held ahead (lit.text ++ more)

/-- A literal that does not go on with a digit has a sign. -/
theorem Literal.eq_minus_cons {lit : Literal} {rest : Bytes}
    (h : Stops isDigit (encode lit.text ++ rest)) : lit.text = '-' :: lit.digits := by
  have hall := lit.all_digits
  obtain ⟨d, digits, hdigits⟩ := List.exists_cons_of_ne_nil lit.nonempty
  cases hnegative : lit.negative with
  | true => rw [Literal.text, if_pos hnegative]
  | false =>
    rw [Literal.text, if_neg (by rw [hnegative]; exact Bool.false_ne_true), hdigits, encode_cons,
      List.append_assoc, stops_encodeCode] at h
    rw [hdigits] at hall
    rw [hall d List.mem_cons_self] at h
    cases h

/-- A literal directly behind what is held is refused with it. -/
theorem Held.read_append {lit : Literal} {rest : Bytes} {held : List Char}
    (h : Held (encode lit.text ++ rest) held) (hne : held ≠ []) (hrest : Stops isDigit rest) :
    Numeral.read (held ++ lit.text) = .error .tooLong ∧ Held rest (held ++ lit.text) := by
  cases h with
  | nothing => exact absurd rfl hne
  | @overlong first hlong more hmore hahead =>
    have hsign : ∃ tail, more ++ lit.text = '-' :: tail := by
      rw [Literal.eq_minus_cons hahead]
      rcases hmore with rfl | ⟨tail, rfl⟩
      · exact ⟨lit.digits, rfl⟩
      · exact ⟨tail ++ '-' :: lit.digits, rfl⟩
    rw [List.append_assoc]
    exact ⟨Numeral.read_overlong hlong (Or.inr hsign), Held.overlong hlong (Or.inr hsign) hrest⟩

/-- Where a numeral cannot be read, it has too many digits, and it stays in the window. -/
theorem Held.of_read_error {lit : Literal} {rest : Bytes} {held blanks : List Char}
    (h : Held (encode blanks ++ (encode lit.text ++ rest)) held) (hrest : Stops isDigit rest)
    {g : Numeral.Fault} (hread : Numeral.read (heldBlanks held blanks ++ lit.text) = .error g) :
    g = .tooLong ∧ Held rest (heldBlanks held blanks ++ lit.text) ∧ (held = [] → lit.Overlong) := by
  by_cases hfresh : heldBlanks held blanks = []
  · rw [hfresh, List.nil_append] at hread ⊢
    rw [Numeral.read_literal] at hread
    split at hread
    next hlong =>
      cases hread
      refine ⟨rfl, ?_, fun _ => hlong⟩
      simpa using Held.overlong hlong (Or.inl rfl) hrest
    next => cases hread
  · -- nothing was committed before the literal, so it is read as part of what is held
    obtain rfl : blanks = [] := by
      by_contra hblanks
      exact hfresh (if_neg hblanks)
    have hheld : heldBlanks held [] = held := if_pos rfl
    rw [hheld] at hfresh hread ⊢
    obtain ⟨hlong, hheld'⟩ := Held.read_append h hfresh hrest
    rw [hlong] at hread
    cases hread
    exact ⟨rfl, hheld', fun hnil => absurd hnil hfresh⟩

/-! ## What a pull brings -/

/--
A literal stands behind white space at the front of some bytes: the longest one there, and what
follows it directly is the end or a character.
-/
structure LiteralAt (ahead : Bytes) (blanks : List Char) (lit : Literal) (rest : Bytes) : Prop where
  bytes_eq : ahead = encode blanks ++ (encode lit.text ++ rest)
  blank : ∀ c ∈ blanks, isBlank c = true
  stops : Stops isDigit rest
  sound : frontFault? rest = none

theorem LiteralAt.digits_within {ahead rest : Bytes} {blanks : List Char} {lit : Literal}
    (h : LiteralAt ahead blanks lit rest) : encode lit.digits <:+: ahead := by
  have hdigits : encode lit.digits <:+: encode lit.text := by
    obtain ⟨sign, hsign⟩ := lit.digits_suffix
    rw [← hsign, encode_append]
    exact (List.suffix_append _ _).isInfix
  rw [h.bytes_eq]
  exact (hdigits.trans (List.prefix_append _ _).isInfix).trans (List.suffix_append _ _).isInfix

/-- What a pull brings over a text, and how the lexer then stands. -/
inductive Outcome (held : List Char) (ahead : Bytes) : Pull × Lexer → Prop where
  | finished (w : Window) : Outcome held ahead (.finished, ⟨w, true⟩)
  | error (e : TokenError) (w : Window) : Outcome held ahead (.error e, ⟨w, true⟩)
  | token {t : Token} {l : Lexer} {behind rest : Bytes} (hl : l.Stands behind [] rest)
      (hrest : rest <:+ ahead) (hshorter : rest.length < ahead.length)
      (hfits : ∀ n, t.lexeme = .number n → Fits n) : Outcome held ahead (.token t, l)
  | overlong {l : Lexer} {behind rest : Bytes} {held' : List Char} (hl : l.Stands behind held' rest)
      (hheld : Held rest held')
      (hlit : held = [] → ∃ blanks lit rest, lit.Overlong ∧ LiteralAt ahead blanks lit rest) :
      Outcome held ahead (.fault (.numeral .tooLong), l)

/--
**A pull brings a token, ends the stream, fails with a token error, or fails at a numeral of too
many digits.** A window that held nothing holds nothing afterwards, or such a numeral.
-/
theorem next_outcome (h : l.Stands behind held ahead) (hheld : Held ahead held) :
    Outcome held ahead l.next := by
  obtain ⟨blanks, ahead, rfl, hblanks, hstops, rfl | ⟨m, hm⟩ | ⟨shape, text, rest, rfl, hcut⟩⟩ :=
    exists_blanks ahead
  · rw [List.append_nil] at h
    obtain ⟨w, hnext⟩ := next_end h hblanks
    rw [hnext]
    exact Outcome.finished w
  · obtain ⟨e, w, hnext⟩ := next_malformed h hblanks hm
    rw [hnext]
    exact Outcome.error e w
  · have hnext := next_cut h hblanks hstops hcut rfl rfl
    cases hverdict : verdict shape (behindBlanks behind held blanks).length
        (heldBlanks held blanks ++ text) rest with
    | ok lexeme =>
      rw [hverdict] at hnext
      obtain ⟨l', hl', hnext⟩ := hnext
      rw [hnext]
      refine Outcome.token hl' ?_ ?_ ?_
      · exact (List.suffix_append _ _).trans (List.suffix_append _ _)
      · have htext := (length_encode_pos_iff text).2 hcut.ne_nil
        rw [List.length_append, List.length_append]
        omega
      · intro n hlexeme
        cases hlexeme
        exact fits_of_verdict hverdict
    | error f =>
      rw [hverdict] at hnext
      cases f with
      | error e =>
        obtain ⟨w, hnext⟩ := hnext
        rw [hnext]
        exact Outcome.error e w
      | fault f =>
        -- only a numeral fails without a token error, and then it stays in the window
        obtain ⟨l', hl', hnext⟩ := hnext
        obtain ⟨rfl, hsound, g, hread, rfl⟩ := eq_literal_of_verdict_fault hverdict
        cases hcut with
        | literal lit hrest =>
          obtain ⟨rfl, hheld', hlong⟩ := hheld.of_read_error hrest hread
          rw [hnext]
          refine Outcome.overlong hl' hheld' ?_
          intro hnil
          exact ⟨blanks, lit, rest, hlong hnil, rfl, hblanks, hrest, hsound⟩

/-! ## All pulls -/

theorem pulls_of_exhausted {p : Pull} {l' : Lexer} (hnext : l.next = (p, l'))
    (h : l'.exhausted = true) : l.pulls = [p] := by
  rw [pulls, hnext, if_pos h]

theorem pulls_of_running {p : Pull} {l' : Lexer} (hnext : l.next = (p, l'))
    (h : l'.exhausted = false) : l.pulls = p :: l'.pulls := by
  rw [pulls, hnext, if_neg (by rw [h]; exact Bool.false_ne_true)]

/-- The last pulls of a stream: its end, a token error, or a literal of too many digits. -/
inductive Ending (ahead : Bytes) : List Pull → Prop where
  | finished : Ending ahead [.finished]
  | error (e : TokenError) : Ending ahead [.error e]
  | overlong {lit : Literal} (hlong : lit.Overlong) (hwithin : encode lit.digits <:+: ahead)
      (more : List Pull) : Ending ahead (.fault (.numeral .tooLong) :: more)

theorem Ending.mono {ahead ahead' : Bytes} {pulls : List Pull} (h : Ending ahead pulls)
    (hsuffix : ahead <:+ ahead') : Ending ahead' pulls := by
  cases h with
  | finished => exact Ending.finished
  | error e => exact Ending.error e
  | overlong hlong hwithin more =>
    exact Ending.overlong hlong (hwithin.trans hsuffix.isInfix) more

/-- **A stream brings tokens, whose numbers fit in 64 bits, and then it ends**, fails with a token
error, or meets a literal of too many digits. -/
theorem pulls_stands (h : l.Stands behind [] ahead) :
    ∃ (tokens : List Token) (ending : List Pull), l.pulls = tokens.map .token ++ ending ∧
      Ending ahead ending ∧ ∀ t ∈ tokens, ∀ n, t.lexeme = .number n → Fits n := by
  -- every token that is committed makes what is ahead shorter
  induction hn : ahead.length using Nat.strongRecOn generalizing l behind ahead with
  | ind count ih =>
    subst hn
    have houtcome := next_outcome h Held.nothing
    generalize hnext : l.next = result at houtcome
    cases houtcome with
    | finished w => exact ⟨[], [.finished], pulls_of_exhausted hnext rfl, Ending.finished, nofun⟩
    | error e w => exact ⟨[], [.error e], pulls_of_exhausted hnext rfl, Ending.error e, nofun⟩
    | @token t l' behind' rest hl hrest hshorter hfits =>
      obtain ⟨tokens, ending, hpulls, hending, htokens⟩ := ih rest.length hshorter hl rfl
      refine ⟨t :: tokens, ending, ?_, hending.mono hrest, List.forall_mem_cons.2 ⟨hfits, htokens⟩⟩
      rw [pulls_of_running hnext hl.running, hpulls]
      rfl
    | @overlong l' behind' rest held' hl hheld hlit =>
      obtain ⟨blanks, lit, rest', hlong, hat⟩ := hlit rfl
      exact ⟨[], _, pulls_of_running hnext hl.running,
        Ending.overlong hlong hat.digits_within _, nofun⟩

/-! ## Texts without overlong runs of digits -/

/-- No run of more than `limit` digits of ASCII stands in a text. -/
def DigitRunsWithin (limit : Nat) (source : Bytes) : Prop :=
  ∀ run : Bytes, run <:+: source → (∀ b ∈ run, 0x30 ≤ b ∧ b ≤ 0x39) → run.length ≤ limit

/-- The digits of a literal are as many digits of ASCII. -/
theorem encode_digits (lit : Literal) :
    (encode lit.digits).length = lit.digits.length ∧
      ∀ b ∈ encode lit.digits, (0x30 : UInt8) ≤ b ∧ b ≤ (0x39 : UInt8) := by
  have hrange : ∀ c ∈ lit.digits, 0x30 ≤ c.toNat ∧ c.toNat ≤ 0x39 := by
    intro c hc
    rw [← isDigit_iff]
    exact lit.all_digits c hc
  have hascii : ∀ c ∈ lit.digits, c.toNat < 0x80 := by
    intro c hc
    have := hrange c hc
    omega
  rw [encode_ascii hascii]
  refine ⟨List.length_map _, ?_⟩
  intro b hb
  obtain ⟨c, hc, rfl⟩ := List.mem_map.1 hb
  have := hrange c hc
  have hbyte : (UInt8.ofNat c.toNat).toNat = c.toNat := by
    refine UInt8.toNat_ofNat_of_lt' ?_
    have : UInt8.size = 256 := rfl
    omega
  simp only [UInt8.le_iff_toNat_le, hbyte, UInt8.reduceToNat]
  exact this

/-- The pull that ends a stream. -/
def lastPull : Option TokenError → Pull
  | none => .finished
  | some e => .error e

/-- No token stands at the front of a stream. -/
def Tokenless (stream : List Pull) : Prop := ∀ t, stream.head? ≠ some (.token t)

theorem tokenless_lastPull (error? : Option TokenError) : Tokenless [lastPull error?] := by
  intro t h
  cases error? with
  | none => cases h
  | some e => cases h

/-- A stream brings one list of tokens before the first pull that brings none. -/
theorem tokens_unique {tokens tokens' : List Token} {rest rest' : List Pull}
    (h : tokens.map Pull.token ++ rest = tokens'.map .token ++ rest') (hrest : Tokenless rest)
    (hrest' : Tokenless rest') : tokens = tokens' ∧ rest = rest' := by
  induction tokens generalizing tokens' with
  | nil =>
    cases tokens' with
    | nil => exact ⟨rfl, h⟩
    | cons t' tokens' => exact absurd (congrArg List.head? h) (hrest t')
  | cons t tokens ih =>
    cases tokens' with
    | nil => exact absurd (congrArg List.head? h.symm) (hrest' t)
    | cons t' tokens' =>
      obtain ⟨ht, htokens⟩ := List.cons.inj h
      obtain ⟨rfl, rfl⟩ := ih htokens
      cases ht
      exact ⟨rfl, rfl⟩

/-- The last pulls of a stream bring no token first. -/
theorem Ending.tokenless {ahead : Bytes} {pulls : List Pull} (h : Ending ahead pulls) :
    Tokenless pulls := by
  intro t ht
  cases h <;> cases ht

/-- The first fault of a stream is a literal of too many digits. -/
theorem eq_tooLong_of_pulls {source : Bytes} {tokens : List Token} {f : LexFault}
    {more : List Pull} (h : (ofBytes source).pulls = tokens.map .token ++ .fault f :: more) :
    f = .numeral .tooLong := by
  obtain ⟨tokens', ending, hpulls, hending, -⟩ := pulls_stands (stands_ofBytes source)
  obtain ⟨-, rfl⟩ :=
    tokens_unique (hpulls.symm.trans h) hending.tokenless (fun _ ht => by cases ht)
  cases hending
  rfl

/-- Short texts have no long runs of digits. -/
theorem digitRunsWithin_of_length {limit : Nat} {source : Bytes} (h : source.length ≤ limit) :
    DigitRunsWithin limit source :=
  fun _ hwithin _ => Nat.le_trans hwithin.length_le h

/-- In a text without overlong runs of digits, a stream brings tokens and then ends or fails. -/
theorem exists_tokens {source : Bytes} (h : DigitRunsWithin Numeral.digitLimit source) :
    ∃ (tokens : List Token) (error? : Option TokenError),
      (ofBytes source).pulls = tokens.map .token ++ [lastPull error?] := by
  obtain ⟨tokens, ending, hpulls, hending, -⟩ := pulls_stands (stands_ofBytes source)
  cases hending with
  | finished => exact ⟨tokens, none, hpulls⟩
  | error e => exact ⟨tokens, some e, hpulls⟩
  | @overlong lit hlong hwithin more =>
    obtain ⟨hlength, hdigits⟩ := encode_digits lit
    have := h _ hwithin hdigits
    have hover : Numeral.digitLimit < lit.digits.length := hlong
    omega

end Arith.Lexer
