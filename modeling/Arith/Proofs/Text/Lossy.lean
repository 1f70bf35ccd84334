import Arith.Proofs.Text.Encoding

/-!
# Reading with replacement

`decodeLossy` reads an encoded text as it is, also when malformed bytes follow
(`decodeLossy_encode_append`). At malformed bytes it goes on behind the longest beginning of a
character, which is also how far it goes where a character stands (`maximalPart_of_decodeHead`). So
the number of characters that are read depends on nothing but these steps, and a text that is cut
off reads as no more characters than the whole (`length_decodeLossy_take_le`).
-/

namespace Arith.Utf8

/-! ## What is read -/

theorem decodeLossy_encodeCode (c : Char) (rest : Bytes) :
    decodeLossy (encodeCode c.toNat ++ rest) = c :: decodeLossy rest := by
  obtain ⟨lead, tail, he, hdecode⟩ := encodeCode_append c rest
  rw [he, decodeLossy, hdecode]
  simp only [Nat.add_sub_cancel, List.drop_left]

/-- **An encoded text is read as it is**, whatever follows. -/
theorem decodeLossy_encode_append (text : List Char) (rest : Bytes) :
    decodeLossy (encode text ++ rest) = text ++ decodeLossy rest := by
  induction text with
  | nil => rfl
  | cons c text ih =>
    rw [encode_cons, List.append_assoc, decodeLossy_encodeCode, ih, List.cons_append]

theorem decodeLossy_encode (text : List Char) : decodeLossy (encode text) = text := by
  have h := decodeLossy_encode_append text []
  rwa [List.append_nil, decodeLossy_nil, List.append_nil] at h

/-! ## How far a step goes -/

/-- Continuation bytes that were read are all in their ranges. -/
theorem continuationLength_of_continueCode {range : UInt8 × UInt8} {code place result : Nat}
    {bytes : Bytes} (h : continueCode range code place bytes = .ok result) :
    continuationLength range bytes = bytes.length := by
  induction bytes generalizing range code place with
  | nil => rfl
  | cons b bytes ih =>
    obtain ⟨hb, hbytes⟩ := (continueCode_eq_ok_iff ..).1 h
    rw [continuationLength, if_pos hb, ih hbytes, List.length_cons, Nat.add_comm]

theorem continuationLength_take (range : UInt8 × UInt8) (bytes : Bytes) (count : Nat) :
    continuationLength range (bytes.take count) = min count (continuationLength range bytes) := by
  induction bytes generalizing range count with
  | nil => simp [continuationLength]
  | cons b bytes ih =>
    cases count with
    | zero => simp [continuationLength]
    | succ count =>
      rw [List.take_succ_cons, continuationLength, continuationLength, ih]
      split
      · omega
      · exact (Nat.min_zero _).symm

/-- A character that was read is the longest beginning of one. -/
theorem maximalPart_of_decodeHead {lead : UInt8} {rest : Bytes} {c : Char} {width : Nat}
    (h : decodeHead lead rest = .ok (c, width)) : maximalPart lead rest = width := by
  obtain ⟨rfl, hpos⟩ := width_of_decodeHead h
  have hle := width_le_of_decodeHead h
  have hlength : (rest.take (sequenceWidth lead - 1)).length = sequenceWidth lead - 1 := by
    rw [List.length_cons] at hle
    rw [List.length_take]
    omega
  obtain ⟨more, hmore⟩ := Nat.exists_eq_add_one.2 hpos
  have hall : continuationLength (secondRange lead) (rest.take (sequenceWidth lead - 1))
      = (rest.take (sequenceWidth lead - 1)).length := by
    cases more with
    | zero => simp [hmore, continuationLength]
    | succ more =>
      rw [decodeHead_long hmore (by rw [List.length_take] at hlength; omega)] at h
      generalize hcode : continueCode _ _ _ _ = r at h
      cases r with
      | error m => cases h
      | ok code =>
        rw [hmore]
        exact continuationLength_of_continueCode hcode
  rw [maximalPart, hall, hlength]
  omega

/-- The longest beginning of a character is cut off with the text. -/
theorem maximalPart_take (lead : UInt8) (rest : Bytes) (count : Nat) :
    maximalPart lead (rest.take count) - 1 = min count (maximalPart lead rest - 1) := by
  rw [maximalPart, maximalPart, List.take_take, continuationLength_take, continuationLength_take]
  omega

/-- A character, or the replacement of some bytes, and then the rest is read. -/
theorem exists_decodeLossy_cons (lead : UInt8) (rest : Bytes) :
    ∃ c, decodeLossy (lead :: rest) = c :: decodeLossy (rest.drop (maximalPart lead rest - 1)) := by
  rw [decodeLossy]
  cases h : decodeHead lead rest with
  | error m => exact ⟨_, rfl⟩
  | ok found => exact ⟨found.1, by rw [maximalPart_of_decodeHead h]⟩

/-! ## How much is read -/

/-- **A text that is cut off reads as no more characters than the whole.** -/
theorem length_decodeLossy_take_le (bytes : Bytes) (count : Nat) :
    (decodeLossy (bytes.take count)).length ≤ (decodeLossy bytes).length := by
  induction hn : bytes.length using Nat.strongRecOn generalizing bytes count with
  | ind n ih =>
    subst hn
    cases bytes with
    | nil => simp
    | cons lead rest =>
      cases count with
      | zero => simp
      | succ count =>
        obtain ⟨c, hwhole⟩ := exists_decodeLossy_cons lead rest
        obtain ⟨d, hcut⟩ := exists_decodeLossy_cons lead (rest.take count)
        rw [List.take_succ_cons, hwhole, hcut, maximalPart_take, List.length_cons, List.length_cons]
        generalize maximalPart lead rest - 1 = step
        have hshorter : (rest.drop step).length < (lead :: rest).length := length_drop_lt ..
        rcases Nat.le_total step count with hle | hge
        · -- both readings go on at the same place
          have := ih _ hshorter (rest.drop step) (count - step) rfl
          rw [Nat.min_eq_right hle, List.drop_take]
          omega
        · have hnil : (rest.take count).drop (min count step) = [] := by
            rw [Nat.min_eq_left hge, List.drop_eq_nil_iff, List.length_take]
            exact Nat.min_le_left _ _
          rw [hnil, decodeLossy_nil, List.length_nil]
          omega

theorem length_decodeLossy_pos {bytes : Bytes} (h : bytes ≠ []) :
    0 < (decodeLossy bytes).length := by
  obtain ⟨lead, rest, rfl⟩ := List.exists_cons_of_ne_nil h
  obtain ⟨c, hread⟩ := exists_decodeLossy_cons lead rest
  rw [hread, List.length_cons]
  exact Nat.succ_pos _

/-- A character of ASCII is read only where its byte stands. -/
theorem mem_of_mem_decodeLossy {c : Char} (hascii : c.toNat < 0x80) {bytes : Bytes}
    (h : c ∈ decodeLossy bytes) : UInt8.ofNat c.toNat ∈ bytes := by
  induction hn : bytes.length using Nat.strongRecOn generalizing bytes with
  | ind n ih =>
    subst hn
    rcases front_cases bytes with rfl | ⟨m, hm⟩ | ⟨d, rest, rfl⟩
    · rw [decodeLossy_nil] at h
      cases h
    · obtain ⟨lead, rest, rfl, hdecode⟩ := exists_of_frontFault hm
      rw [decodeLossy, hdecode] at h
      rcases List.mem_cons.1 h with rfl | h
      · exact absurd hascii (by decide)
      · have hrest := ih _ (length_drop_lt ..) h rfl
        exact List.mem_cons_of_mem _ (List.mem_of_mem_drop hrest)
    · rw [decodeLossy_encodeCode] at h
      rcases List.mem_cons.1 h with rfl | h
      · rw [encodeCode_one hascii]
        exact List.mem_cons_self
      · have hpos := length_encodeCode_pos d
        have hrest := ih rest.length (by rw [List.length_append]; omega) h rfl
        exact List.mem_append_right _ hrest

end Arith.Utf8
