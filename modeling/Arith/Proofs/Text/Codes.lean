import Arith.Proofs.Text.Lossy
import Arith.Proofs.Text.Offset

/-!
# Texts with surrogates

An editor may hold a surrogate that belongs to no pair. It is written like any other code of its
size, in three bytes, but reading refuses it: the first two of its bytes are to blame
(`frontFault?_surrogate`). Read with replacement, each of these two bytes is a character of its own
(`decodeLossy_surrogate`).

All other codes are those of characters. So codes whose bytes begin with those of a text begin with
the codes of the text (`exists_rest_of_encodeCodes`).
-/

namespace Arith.Utf8

/-- A code that has a meaning only as one half of a pair. -/
def IsSurrogate (code : Nat) : Prop := 0xD800 ≤ code ∧ code ≤ 0xDFFF

instance (code : Nat) : Decidable (IsSurrogate code) := inferInstanceAs (Decidable (_ ∧ _))

/-- Every code is that of a surrogate or of a character. -/
theorem cases_of_code {code : Nat} (h : code < 0x110000) :
    IsSurrogate code ∨ ∃ c : Char, c.toNat = code := by
  by_cases hsurrogate : IsSurrogate code
  · exact Or.inl hsurrogate
  · refine Or.inr ⟨Char.ofNat code, toNat_ofNat_of_code ?_⟩
    unfold IsSurrogate at hsurrogate
    omega

/-! ## The bytes of a surrogate -/

section

variable {code : Nat} (h : IsSurrogate code)

include h

theorem encodeCode_surrogate :
    encodeCode code = [0xED, continuation (code / 0x40), continuation code] := by
  obtain ⟨hlo, hhi⟩ := h
  have hlead : 0xE0 + code / 0x1000 = 0xED := by omega
  rw [encodeCode_three (by omega) (by omega), hlead]
  rfl

/-- The second byte of a surrogate may not stand behind the first one. -/
theorem not_second_surrogate : ¬ ((secondRange 0xED).1 ≤ continuation (code / 0x40) ∧
    continuation (code / 0x40) ≤ (secondRange 0xED).2) := by
  obtain ⟨hlo, hhi⟩ := h
  intro hsecond
  obtain ⟨-, -, -, hle, -⟩ := (isSecond_iff 0xED _).1 hsecond
  have hbound := hle rfl
  rw [toNat_continuation] at hbound
  omega

/-- **A surrogate is refused for its second byte.** -/
theorem frontFault?_surrogate (rest : Bytes) :
    frontFault? (encodeCode code ++ rest)
      = some (.badContinuation 1 (continuation (code / 0x40))) := by
  have hdecode : decodeHead 0xED (continuation (code / 0x40) :: continuation code :: rest)
      = .error (.badContinuation 1 (continuation (code / 0x40))) := by
    rw [decodeHead_long (show sequenceWidth 0xED = 1 + 2 from rfl) (by simp), List.take_succ_cons,
      continueCode, if_neg (not_second_surrogate h)]
    rfl
  rw [encodeCode_surrogate h]
  simp only [List.cons_append, List.nil_append, frontFault?, hdecode]

/-- The first two bytes of a surrogate are no beginning of a character, neither together nor the
second one alone. -/
theorem decodeLossy_surrogate :
    decodeLossy [0xED, continuation (code / 0x40)] = [replacement, replacement] := by
  have hfirst : decodeHead 0xED [continuation (code / 0x40)] = .error (.truncated 2) :=
    decodeHead_truncated (show sequenceWidth 0xED = 1 + 2 from rfl) (by simp)
  have hpart : maximalPart 0xED [continuation (code / 0x40)] = 1 := by
    rw [maximalPart, show sequenceWidth 0xED - 1 = 2 from rfl, List.take_of_length_le (by simp),
      continuationLength, if_neg (not_second_surrogate h)]
  have hsecond : decodeHead (continuation (code / 0x40)) []
      = .error (.badLead (continuation (code / 0x40))) := by
    unfold decodeHead
    rw [sequenceWidth_eq_zero (isContinuation_continuation _)]
  rw [decodeLossy, hfirst, hpart]
  simp only [Nat.sub_self, List.drop_zero]
  rw [decodeLossy, hsecond, List.drop_nil, decodeLossy_nil]

end

/-! ## Codes that begin with a text -/

theorem encodeCodes_cons (code : Nat) (codes : List Nat) :
    encodeCodes (code :: codes) = encodeCode code ++ encodeCodes codes := rfl

theorem encodeCodes_append (codes codes' : List Nat) :
    encodeCodes (codes ++ codes') = encodeCodes codes ++ encodeCodes codes' :=
  List.flatMap_append

/-- What stands behind a text among codes is encoded too. -/
theorem exists_rest_of_encodeCodes {codes : List Nat} {before : List Char} {tail : Bytes}
    (hcodes : ∀ code ∈ codes, code < 0x110000) (h : encodeCodes codes = encode before ++ tail) :
    ∃ rest, codes = before.map Char.toNat ++ rest ∧ tail = encodeCodes rest := by
  induction before generalizing codes with
  | nil => exact ⟨codes, rfl, h.symm⟩
  | cons c before ih =>
    rw [encode_cons, List.append_assoc] at h
    cases codes with
    | nil => exact absurd h.symm (encodeCode_append_ne_nil c _)
    | cons code codes =>
      obtain ⟨hcode, hmore⟩ := List.forall_mem_cons.1 hcodes
      rw [encodeCodes_cons] at h
      rcases cases_of_code hcode with hsurrogate | ⟨d, rfl⟩
      · -- no character stands where a surrogate does
        have hfront := frontFault?_surrogate hsurrogate (encodeCodes codes)
        rw [h, frontFault?_encodeCode] at hfront
        cases hfront
      · obtain ⟨rfl, htail⟩ := encodeCode_append_inj h
        obtain ⟨rest, rfl, hrest⟩ := ih hmore htail
        exact ⟨rest, rfl, hrest⟩

/-- Where no character stands among codes, there is a surrogate. -/
theorem exists_surrogate_of_frontFault {codes : List Nat} {m : Malformed}
    (hcodes : ∀ code ∈ codes, code < 0x110000) (h : frontFault? (encodeCodes codes) = some m) :
    ∃ code rest, codes = code :: rest ∧ IsSurrogate code ∧
      m = .badContinuation 1 (continuation (code / 0x40)) := by
  cases codes with
  | nil => cases h
  | cons code rest =>
    obtain ⟨hcode, -⟩ := List.forall_mem_cons.1 hcodes
    rw [encodeCodes_cons] at h
    rcases cases_of_code hcode with hsurrogate | ⟨d, rfl⟩
    · rw [frontFault?_surrogate hsurrogate] at h
      cases h
      exact ⟨code, rest, rfl, hsurrogate, rfl⟩
    · rw [frontFault?_encodeCode] at h
      cases h

end Arith.Utf8
