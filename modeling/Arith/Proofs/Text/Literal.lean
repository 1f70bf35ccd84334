import Arith.Text.Matcher
import Arith.Text.Numeral
import Mathlib.Data.Nat.Digits.Defs

/-!
# Plain decimal literals

A literal is a minus sign or none, and at least one decimal digit of ASCII; it stands for the sum of
its digits by place. Reading brings just this number, whatever the leading zeros, as long as there
are no more digits than are read (`read_literal`). Every number is written as such a literal, and
stands for itself (`value_ofInt`, `text_ofInt`).
-/

namespace Arith

/-! ## Digits of ASCII -/

theorem isDigit_iff (c : Char) : isDigit c = true ↔ 0x30 ≤ c.toNat ∧ c.toNat ≤ 0x39 := by
  simp [isDigit]

/-- Digits are not blank. -/
theorem isBlank_of_isDigit {c : Char} (h : isDigit c = true) : isBlank c = false := by
  rw [isDigit_iff] at h
  simp [isBlank]
  omega

theorem isDigit_of_isBlank {c : Char} (h : isBlank c = true) : isDigit c = false := by
  by_contra hdigit
  rw [Bool.not_eq_false] at hdigit
  rw [isBlank_of_isDigit hdigit] at h
  cases h

namespace Numeral

/-! ## Literals -/

/-- A minus sign or none, and at least one digit. -/
structure Literal where
  negative : Bool
  digits : List Char
  nonempty : digits ≠ []
  all_digits : ∀ c ∈ digits, isDigit c = true

/-- The value of a digit of ASCII. -/
def digitValue (c : Char) : Nat := c.toNat - 0x30

namespace Literal

/-- The text of a literal. -/
def text (l : Literal) : List Char := if l.negative then '-' :: l.digits else l.digits

theorem text_ne_nil (l : Literal) : l.text ≠ [] := by
  unfold text
  split
  · exact List.cons_ne_nil _ _
  · exact l.nonempty

theorem digits_suffix (l : Literal) : l.digits <:+ l.text := by
  unfold text
  split
  · exact List.suffix_cons _ _
  · exact List.suffix_refl _

/-- No digit is a minus sign. -/
theorem digits_ne_minus (l : Literal) (digits : List Char) : l.digits ≠ '-' :: digits := by
  intro heq
  have hdigit := l.all_digits '-' (by rw [heq]; exact List.mem_cons_self)
  exact absurd hdigit (by decide)

/-- A literal is known by its text. -/
theorem text_injective {l l' : Literal} (h : l.text = l'.text) : l = l' := by
  obtain ⟨negative, digits, _, _⟩ := l
  obtain ⟨negative', digits', _, _⟩ := l'
  cases negative <;> cases negative'
  · cases h
    rfl
  · exact absurd h (digits_ne_minus ⟨false, digits, _, _⟩ digits')
  · exact absurd h.symm (digits_ne_minus ⟨false, digits', _, _⟩ digits)
  · cases h
    rfl

/-- The number that the digits stand for, the last digit being that of the ones. -/
def magnitude (l : Literal) : Nat := Nat.ofDigits 10 (l.digits.map digitValue).reverse

/-- The number that a literal stands for. -/
def value (l : Literal) : Int := if l.negative then -(l.magnitude : Int) else l.magnitude

/-- A literal has more digits than are read. -/
def Overlong (l : Literal) : Prop := digitLimit < l.digits.length

instance (l : Literal) : Decidable l.Overlong := inferInstanceAs (Decidable (_ < _))

end Literal

/-! ## Reading -/

namespace Literal

/-- The literal of a sign and some digits, if there are digits and nothing else. -/
def ofDigits? (negative : Bool) (digits : List Char) : Option Literal :=
  if h : digits ≠ [] ∧ digits.all isDigit = true then
    some ⟨negative, digits, h.1, List.all_eq_true.1 h.2⟩
  else none

/-- The literal that a text is. -/
def ofText? : List Char → Option Literal
  | '-' :: digits => ofDigits? true digits
  | digits => ofDigits? false digits

theorem ofDigits?_digits (l : Literal) : ofDigits? l.negative l.digits = some l :=
  dif_pos ⟨l.nonempty, List.all_eq_true.2 l.all_digits⟩

/-- The text of a literal is that literal. -/
theorem ofText?_text (l : Literal) : ofText? l.text = some l := by
  have hdigits := l.ofDigits?_digits
  unfold text
  cases hsign : l.negative with
  | true => rwa [hsign] at hdigits
  | false =>
    rw [hsign] at hdigits
    show ofText? l.digits = some l
    unfold ofText?
    split
    next heq => exact absurd heq (l.digits_ne_minus _)
    next => exact hdigits

end Literal

/-- A digit of ASCII is a digit with its own value. -/
theorem value?_of_isDigit {c : Char} (h : isDigit c = true) :
    DecimalDigit.value? c = some (digitValue c) := by
  have hrange := (isDigit_iff c).1 h
  have hc : Char.ofNat (0x30 + digitValue c) = c := by
    rw [digitValue, Nat.add_sub_cancel' hrange.1, Char.ofNat_toNat]
  rw [← DecimalDigit.value?_ascii (n := digitValue c) (by rw [digitValue]; omega), hc]

/-- A run of digits goes up to a minus sign or the end of the text. -/
theorem run?_digits {digits : List Char} (hdigits : ∀ c ∈ digits, isDigit c = true)
    {more : List Char} (hmore : more = [] ∨ ∃ rest, more = '-' :: rest) :
    run? true (digits ++ more) = some ⟨digits.map digitValue, more⟩ := by
  induction digits with
  | nil =>
    rcases hmore with rfl | ⟨rest, rfl⟩
    · rfl
    · have hminus : DecimalDigit.value? '-' = none := by decide
      rw [List.nil_append, run?, hminus]
      rfl
  | cons d digits ih =>
    obtain ⟨hd, hdigits⟩ := List.forall_mem_cons.1 hdigits
    rw [List.cons_append, run?, value?_of_isDigit hd]
    show (run? true (digits ++ more)).map _ = _
    rw [ih hdigits]
    rfl

/-- The digits of a literal are a run. -/
theorem run?_literal (l : Literal) {more : List Char}
    (hmore : more = [] ∨ ∃ rest, more = '-' :: rest) :
    run? false (l.digits ++ more) = some ⟨l.digits.map digitValue, more⟩ := by
  have hall := l.all_digits
  obtain ⟨d, digits, hl⟩ := List.exists_cons_of_ne_nil l.nonempty
  rw [hl] at hall ⊢
  obtain ⟨hd, hdigits⟩ := List.forall_mem_cons.1 hall
  rw [List.cons_append, run?, value?_of_isDigit hd]
  show (run? true (digits ++ more)).map _ = _
  rw [run?_digits hdigits hmore]
  rfl

/-- Digits are no padding and no sign. -/
theorem not_padding_of_isDigit {c : Char} (h : isDigit c = true) :
    isPadding c = false ∧ c ≠ '-' ∧ c ≠ '+' := by
  refine ⟨?_, ?_, ?_⟩
  · rw [isPadding, isBlank_of_isDigit h]
    rfl
  · rintro rfl
    exact absurd h (by decide)
  · rintro rfl
    exact absurd h (by decide)

/-- The sign of a literal, and its digits. -/
theorem sign_literal (l : Literal) (more : List Char) :
    sign ((l.text ++ more).dropWhile isPadding)
      = (if l.negative then -1 else 1, l.digits ++ more) := by
  unfold Literal.text
  split
  next =>
    have hminus : isPadding '-' = false := by decide
    rw [List.cons_append, List.dropWhile_cons_of_neg (by simp [hminus])]
    rfl
  next =>
    have hall := l.all_digits
    obtain ⟨d, digits, hl⟩ := List.exists_cons_of_ne_nil l.nonempty
    rw [hl] at hall ⊢
    obtain ⟨hpadding, hminus, hplus⟩ := not_padding_of_isDigit (hall d (by simp))
    rw [List.cons_append, List.dropWhile_cons_of_neg (by simp [hpadding])]
    unfold sign
    split
    next heq => exact absurd (List.cons.inj heq).1 hminus
    next heq => exact absurd (List.cons.inj heq).1 hplus
    next => rfl

/-- Digits stand for their sum by place. -/
theorem ofDigits_eq (digits : List Nat) : ofDigits digits = Nat.ofDigits 10 digits.reverse := by
  rw [Nat.ofDigits_eq_foldr, List.foldr_reverse, ofDigits]
  simp only [Nat.cast_id, Nat.add_comm]

/-- **A literal is read as the number it stands for**, unless it has too many digits. -/
theorem read_literal (l : Literal) :
    read l.text = if l.Overlong then .error .tooLong else .ok l.value := by
  have hsign := sign_literal l []
  have hrun := run?_literal l (Or.inl rfl : ([] : List Char) = [] ∨ _)
  rw [List.append_nil] at hsign
  unfold read
  rw [hsign]
  dsimp only
  rw [hrun]
  dsimp only
  rw [List.length_map]
  by_cases hlong : digitLimit < l.digits.length
  · have hover : l.Overlong := hlong
    rw [if_pos hlong, if_pos hover]
  · have hover : ¬ l.Overlong := hlong
    rw [if_neg hlong, if_neg hover, if_pos (by rfl), ofDigits_eq]
    unfold Literal.value Literal.magnitude
    split
    · rw [Int.neg_one_mul]
    · rw [Int.one_mul]

/-- A literal of too many digits stays unread if more follows behind a minus sign. -/
theorem read_overlong {l : Literal} (hlong : l.Overlong) {more : List Char}
    (hmore : more = [] ∨ ∃ rest, more = '-' :: rest) : read (l.text ++ more) = .error .tooLong := by
  unfold read
  rw [sign_literal l more]
  dsimp only
  rw [run?_literal l hmore]
  dsimp only
  rw [List.length_map]
  exact if_pos hlong

/-! ## Writing -/

/-- The character of a digit is a digit with that value. -/
theorem isDigit_digitChar {d : Nat} (h : d < 10) :
    isDigit (digitChar d) = true ∧ digitValue (digitChar d) = d := by
  have hall : ∀ d ∈ List.range 10, isDigit (digitChar d) = true ∧ digitValue (digitChar d) = d := by
    decide
  exact hall d (List.mem_range.2 h)

theorem writeNat_ne_nil (n : Nat) : writeNat n ≠ [] := by
  rw [writeNat]
  split
  · exact List.cons_ne_nil _ _
  · exact List.append_ne_nil_of_right_ne_nil _ (List.cons_ne_nil _ _)

theorem isDigit_of_mem_writeNat {n : Nat} {c : Char} (hc : c ∈ writeNat n) : isDigit c = true := by
  fun_induction writeNat n with
  | case1 n h =>
    rw [List.mem_singleton.1 hc]
    exact (isDigit_digitChar h).1
  | case2 n _ ih =>
    rcases List.mem_append.1 hc with hc | hc
    · exact ih hc
    · rw [List.mem_singleton.1 hc]
      exact (isDigit_digitChar (Nat.mod_lt n (by decide))).1

/-- A natural number is written in the digits that stand for it. -/
theorem ofDigits_writeNat (n : Nat) :
    Nat.ofDigits 10 ((writeNat n).map digitValue).reverse = n := by
  fun_induction writeNat n with
  | case1 n h =>
    rw [List.map_singleton, List.reverse_singleton, Nat.ofDigits_singleton,
      (isDigit_digitChar h).2]
  | case2 n _ ih =>
    rw [List.map_append, List.reverse_append, List.map_singleton, List.reverse_singleton,
      List.singleton_append, Nat.ofDigits_cons, ih,
      (isDigit_digitChar (Nat.mod_lt n (by decide))).2]
    exact Nat.mod_add_div n 10

/-- A number below a power of ten is written in as many digits. -/
theorem length_writeNat_le {n count : Nat} (h : n < 10 ^ (count + 1)) :
    (writeNat n).length ≤ count + 1 := by
  induction count generalizing n with
  | zero =>
    rw [writeNat, if_pos (by omega)]
    exact Nat.le_refl _
  | succ count ih =>
    rw [writeNat]
    split
    · exact Nat.le_add_left _ _
    · have hpow : (10 : Nat) ^ (count + 1 + 1) = 10 ^ (count + 1) * 10 := pow_succ 10 (count + 1)
      have hdiv : n / 10 < 10 ^ (count + 1) := by
        rw [Nat.div_lt_iff_lt_mul (by decide), ← hpow]
        exact h
      have := ih hdiv
      rw [List.length_append, List.length_singleton]
      omega

namespace Literal

/-- An integer as a literal. -/
def ofInt (n : Int) : Literal where
  negative := decide (n < 0)
  digits := writeNat n.natAbs
  nonempty := writeNat_ne_nil _
  all_digits := fun _ => isDigit_of_mem_writeNat

@[simp] theorem text_ofInt (n : Int) : (ofInt n).text = write n := by
  unfold text write ofInt
  simp only [decide_eq_true_eq]

/-- **An integer is written as a literal that stands for it.** -/
@[simp] theorem value_ofInt (n : Int) : (ofInt n).value = n := by
  have hmagnitude : (ofInt n).magnitude = n.natAbs := ofDigits_writeNat _
  unfold value
  rw [hmagnitude]
  simp only [ofInt, decide_eq_true_eq]
  split <;> omega

/-- Numbers of no more digits than are read are written so. -/
theorem not_overlong_ofInt {n : Int} {count : Nat} (h : n.natAbs < 10 ^ (count + 1))
    (hcount : count < digitLimit) : ¬ (ofInt n).Overlong :=
  Nat.not_lt.2 (Nat.le_trans (length_writeNat_le h) hcount)

end Literal

end Numeral

end Arith
