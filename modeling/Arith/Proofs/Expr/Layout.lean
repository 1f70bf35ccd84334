import Arith.Proofs.Expr.Parse

/-!
# Printing and parsing

An expression is printed as its numbers and operators in order, with white space between them
(`layOut`). White space keeps neighbours apart: a minus sign before a digit would belong to the
number. So the printed text is read back, item by item, whatever the white space is
(`pulls_layOut`), and parsed to the tree that was printed (`parse_layOut`).
-/

namespace Arith

open Utf8
open Arith.Parser
open Numeral (Literal)

/-! ## Printing -/

/-- The text of a lexeme. -/
def Lexeme.spelling : Lexeme → List Char
  | unknown => []
  | number n => Numeral.write n
  | identifier name => name.toList
  | keyword k => k.spelling.toList
  | symbol s => [s.char]

/-- What an expression is printed from: a number of 64 bits or a symbol. -/
def Lexeme.Printable : Lexeme → Prop
  | number n => Lexer.Fits n
  | symbol _ => True
  | _ => False

/-- The texts of some lexemes, with a gap before each of them and one at the end. -/
def layOut (gap : Nat → List Char) : List Lexeme → List Char
  | [] => gap 0
  | item :: items => gap 0 ++ (item.spelling ++ layOut (fun i => gap (i + 1)) items)

/-- The gaps around `count` lexemes are blank, and not empty between two of them. -/
structure Gaps (count : Nat) (gap : Nat → List Char) : Prop where
  blank : ∀ i ≤ count, ∀ c ∈ gap i, isBlank c = true
  apart : ∀ i, 0 < i → i < count → gap i ≠ []

theorem Gaps.tail {count : Nat} {gap : Nat → List Char} (h : Gaps (count + 1) gap) :
    Gaps count fun i => gap (i + 1) where
  blank := fun i hi => h.blank (i + 1) (Nat.succ_le_succ hi)
  apart := fun i _ hcount => h.apart (i + 1) (Nat.succ_pos i) (Nat.succ_lt_succ hcount)

/-! ## What may follow a lexeme -/

/-- A text has ended or goes on with white space. -/
def Separated (text : List Char) : Prop :=
  text = [] ∨ ∃ c rest, text = c :: rest ∧ isBlank c = true

/-- Behind a lexeme a printed text is separated. -/
theorem separated_layOut {gap : Nat → List Char} {items : List Lexeme}
    (hblank : ∀ c ∈ gap 0, isBlank c = true) (hne : items ≠ [] → gap 0 ≠ []) :
    Separated (layOut gap items) := by
  have hfront (rest : List Char) (hgap : gap 0 ≠ []) : Separated (gap 0 ++ rest) := by
    obtain ⟨c, tail, hc⟩ := List.exists_cons_of_ne_nil hgap
    refine Or.inr ⟨c, tail ++ rest, by rw [hc, List.cons_append], ?_⟩
    exact hblank c (by rw [hc]; exact List.mem_cons_self)
  cases items with
  | nil =>
    by_cases hgap : gap 0 = []
    · exact Or.inl hgap
    · simpa [layOut] using hfront [] hgap
  | cons item items => exact hfront _ (hne (List.cons_ne_nil _ _))

theorem Separated.stops {text : List Char} (h : Separated text) {test : Char → Bool}
    (htest : ∀ c, isBlank c = true → test c = false) : Stops test (encode text) := by
  rcases h with rfl | ⟨c, rest, rfl, hc⟩
  · exact stops_nil test
  · rw [encode_cons, stops_encodeCode]
    exact htest c hc

theorem Separated.frontFault? {text : List Char} (h : Separated text) :
    frontFault? (encode text) = none := by
  rcases h with rfl | ⟨c, rest, rfl, -⟩
  · rfl
  · rw [encode_cons, frontFault?_encodeCode]

/-! ## Reading back -/

/-- Numbers of 64 bits are written in few digits. -/
theorem not_overlong_of_fits {n : Int} (h : Lexer.Fits n) : ¬ (Literal.ofInt n).Overlong := by
  obtain ⟨hmin, hmax⟩ := h
  have hmin' : Lexer.int64Min = -9223372036854775808 := rfl
  have hmax' : Lexer.int64Max = 9223372036854775807 := rfl
  have hpow : n.natAbs < 10 ^ (18 + 1) := by
    omega
  exact Literal.not_overlong_ofInt hpow (by decide)

/-- The text of a number or a symbol is its own token where something separates it from the rest. -/
theorem cut_spelling {item : Lexeme} (hitem : item.Printable) {text : List Char}
    (htext : Separated text) :
    ∃ shape, Lexer.Cut shape item.spelling (encode text) ∧
      Stops isBlank (encode item.spelling ++ encode text) ∧
      ∀ start, Lexer.verdict shape start item.spelling (encode text) = .ok item := by
  have hdigit : Stops isDigit (encode text) := htext.stops fun _ => isDigit_of_isBlank
  cases item with
  | number n =>
    have hfits : Lexer.Fits n := hitem
    refine ⟨.literal, ?_, ?_, ?_⟩
    · have hcut := Lexer.Cut.literal (Literal.ofInt n) hdigit
      rwa [Literal.text_ofInt] at hcut
    · have hstops := Lexer.Literal.stops_isBlank (Literal.ofInt n) (encode text)
      rwa [Literal.text_ofInt] at hstops
    · intro start
      have hlong : ¬ (Literal.ofInt n).Overlong := not_overlong_of_fits hfits
      unfold Lexer.verdict
      rw [htext.frontFault?]
      show Lexer.numberOf (Numeral.write n) _ = _
      rw [← Literal.text_ofInt, Lexer.numberOf_literal, if_neg hlong, Literal.value_ofInt,
        if_pos hfits]
  | symbol s =>
    refine ⟨.single s.char, ?_, ?_, ?_⟩
    · exact Lexer.Cut.single (by cases s <;> decide) (by cases s <;> decide) fun _ => hdigit
    · rw [Lexeme.spelling, encode_cons, encode_nil, List.append_nil, stops_encodeCode]
      cases s <;> decide
    · intro start
      rw [Lexer.verdict, Lexer.classifySingle, Symbol.ofChar?_char]
  | _ => exact absurd hitem id

/-- A lexeme is pulled from its text. -/
theorem next_spelling {l : Lexer} {behind : Bytes} {blanks text : List Char} {item : Lexeme}
    (h : l.Stands behind [] (encode (blanks ++ (item.spelling ++ text))))
    (hblanks : ∀ c ∈ blanks, isBlank c = true) (hitem : item.Printable) (htext : Separated text) :
    ∃ (span : Span) (l' : Lexer) (behind' : Bytes),
      l.next = (.token ⟨span, item⟩, l') ∧ l'.Stands behind' [] (encode text) := by
  obtain ⟨shape, hcut, hstops, hverdict⟩ := cut_spelling hitem htext
  rw [encode_append, encode_append] at h
  have hnext := Lexer.next_cut h hblanks hstops hcut (Lexer.behindBlanks_nil behind blanks)
    (by rw [Lexer.heldBlanks_nil, List.nil_append])
  rw [hverdict] at hnext
  obtain ⟨l', hl', hnext⟩ := hnext
  exact ⟨_, l', _, hnext, hl'⟩

/-- **What was printed is read back, lexeme by lexeme**, whatever the white space is. -/
theorem pulls_layOut {items : List Lexeme} (hitems : ∀ item ∈ items, item.Printable)
    {gap : Nat → List Char} (hgap : Gaps items.length gap) {l : Lexer} {behind : Bytes}
    (h : l.Stands behind [] (encode (layOut gap items))) :
    ∃ tokens : List Token, l.pulls = tokens.map .token ++ [.finished] ∧
      tokens.map Token.lexeme = items := by
  induction items generalizing gap l behind with
  | nil =>
    obtain ⟨w, hnext⟩ := Lexer.next_end h (hgap.blank 0 (Nat.zero_le _))
    exact ⟨[], Lexer.pulls_of_exhausted hnext rfl, rfl⟩
  | cons item items ih =>
    obtain ⟨hitem, hitems⟩ := List.forall_mem_cons.1 hitems
    -- the next gap keeps the text of this item from going on
    have hseparated : Separated (layOut (fun i => gap (i + 1)) items) := by
      refine separated_layOut (hgap.blank 1 (Nat.succ_le_succ (Nat.zero_le _))) ?_
      intro hne
      exact hgap.apart 1 Nat.one_pos (Nat.succ_lt_succ (List.length_pos_iff.2 hne))
    obtain ⟨span, l', behind', hnext, hl'⟩ :=
      next_spelling h (hgap.blank 0 (Nat.zero_le _)) hitem hseparated
    obtain ⟨tokens, hpulls, htokens⟩ := ih hitems hgap.tail hl'
    refine ⟨⟨span, item⟩ :: tokens, ?_, ?_⟩
    · rw [Lexer.pulls_of_running hnext hl'.running, hpulls]
      rfl
    · rw [List.map_cons, htokens]

/-! ## Expressions -/

namespace Expr

/-- All numbers of an expression fit in 64 bits. -/
def Bounded : Expr → Prop
  | constant n => Lexer.Fits n
  | binary _ left right => left.Bounded ∧ right.Bounded

instance decidableBounded : (e : Expr) → Decidable e.Bounded
  | constant n => inferInstanceAs (Decidable (Lexer.Fits n))
  | binary _ left right =>
    have := decidableBounded left
    have := decidableBounded right
    inferInstanceAs (Decidable (_ ∧ _))

theorem printable_of_mem_inorder {e : Expr} (h : e.Bounded) :
    ∀ item ∈ e.inorder, item.Printable := by
  induction e with
  | constant n =>
    intro item hitem
    rw [List.mem_singleton.1 hitem]
    exact h
  | binary op left right ihl ihr =>
    intro item hitem
    rcases List.mem_append.1 hitem with hitem | hitem
    · exact ihl h.1 item hitem
    · rcases List.mem_cons.1 hitem with rfl | hitem
      · trivial
      · exact ihr h.2 item hitem

theorem bounded_of_mem_inorder {e : Expr} (h : ∀ n, .number n ∈ e.inorder → Lexer.Fits n) :
    e.Bounded := by
  induction e with
  | constant n => exact h n List.mem_cons_self
  | binary op left right ihl ihr =>
    constructor
    · exact ihl fun n hn => h n (List.mem_append_left _ hn)
    · exact ihr fun n hn => h n (List.mem_append_right _ (List.mem_cons_of_mem _ hn))

/-- A text is parsed to an expression, given as code points or as the bytes of a string. -/
def Reads (text : List Char) (e : Expr) : Prop :=
  parse (encodeCodes (text.map Char.toNat)) = .ok e ∧
    parse (String.ofList text).toUTF8.data.toList = .ok e

/-- A printed expression is read. -/
theorem reads_layOut {e : Expr} (hgrouped : e.WellGrouped) (hbounded : e.Bounded)
    {gap : Nat → List Char} (hgap : Gaps e.inorder.length gap) :
    Reads (layOut gap e.inorder) e := by
  obtain ⟨tokens, hpulls, htokens⟩ := pulls_layOut (printable_of_mem_inorder hbounded) hgap
    (Lexer.stands_ofBytes _)
  have hparse := parse_of_pulls hpulls htokens hgrouped
  constructor
  · rw [encodeCodes_map_toNat]
    exact hparse
  · rw [toUTF8_ofList]
    exact hparse

/--
**Printing and parsing are inverse to each other.** A well-grouped tree over numbers of 64 bits is
read back from its text, with any white space between its items; and whatever tree a source text is
parsed to, printing it gives a text of the same tree.
-/
theorem parse_layOut {e : Expr} {gap : Nat → List Char} (hgap : Gaps e.inorder.length gap) :
    (e.WellGrouped → e.Bounded → Reads (layOut gap e.inorder) e) ∧
      ∀ source : Bytes, parse source = .ok e → Reads (layOut gap e.inorder) e := by
  constructor
  · intro hgrouped hbounded
    exact reads_layOut hgrouped hbounded hgap
  · intro source hparse
    obtain ⟨tokens, -, htokens, hgrouped, hfits⟩ := eq_of_parse_ok hparse
    have hbounded : e.Bounded := by
      refine bounded_of_mem_inorder fun n hn => ?_
      rw [← htokens] at hn
      obtain ⟨t, ht, hlexeme⟩ := List.mem_map.1 hn
      exact hfits t ht n hlexeme
    exact reads_layOut hgrouped hbounded hgap

/-- Three minus signs, of which two are glued to a digit; the text `1-2` would be two numbers. -/
theorem parse_layOut_minus :
    let e : Expr :=
      .binary .subtract (.constant (-1)) (.binary .multiply (.constant (-2)) (.constant 3))
    let gap : Nat → List Char := fun i => if i = 0 then [] else ['\u3000', '\n']
    Gaps e.inorder.length gap ∧ e.WellGrouped ∧ e.Bounded ∧
      layOut gap e.inorder = "-1\u3000\n-\u3000\n-2\u3000\n*\u3000\n3\u3000\n".toList ∧
      Reads (layOut gap e.inorder) e ∧
      ∃ source : Bytes, parse source = .ok e ∧ Reads (layOut gap e.inorder) e := by
  intro e gap
  have hgap : Gaps e.inorder.length gap := by
    constructor
    · intro i _ c hc
      by_cases hi : i = 0
      · simp [gap, hi] at hc
      · have hc : c = '\u3000' ∨ c = '\n' := by simpa [gap, hi] using hc
        rcases hc with rfl | rfl <;> decide
    · intro i hi _
      simp [gap, Nat.ne_of_gt hi]
  have hgrouped : e.WellGrouped := by decide
  have hbounded : e.Bounded := by decide
  obtain ⟨hprint, hreprint⟩ := parse_layOut hgap
  have hparse : parse "-1 - -2*3".toUTF8.data.toList = .ok e := by cbv
  exact ⟨hgap, hgrouped, hbounded, by cbv, hprint hgrouped hbounded, _, hparse, hreprint _ hparse⟩

end Expr

end Arith
