import Arith.Text.Utf8

/-!
# Decoding reads exactly what encoding writes

The character at the front of some bytes is the one whose encoding stands there
(`decodeHead_encodeCode`, `eq_encodeCode_of_decodeHead`): overlong forms, surrogates and what lies
past U+10FFFF are encodings of no character. So bytes are empty, or malformed at the front, or the
encoding of one character with a rest, and of no other (`front_cases`, `encodeCode_append_inj`).
The longest run of characters that pass a test is then well determined (`exists_run`, `Stops`).
-/

namespace Arith.Utf8

/-! ## Bytes as numbers -/

/-- The length of a character by the range of its lead byte. -/
theorem sequenceWidth_cases (b : UInt8) :
    (b.toNat < 0x80 ∧ sequenceWidth b = 1) ∨
      (0xC2 ≤ b.toNat ∧ b.toNat < 0xE0 ∧ sequenceWidth b = 2) ∨
      (0xE0 ≤ b.toNat ∧ b.toNat < 0xF0 ∧ sequenceWidth b = 3) ∨
      (0xF0 ≤ b.toNat ∧ b.toNat < 0xF5 ∧ sequenceWidth b = 4) ∨
      (0x80 ≤ b.toNat ∧ b.toNat < 0xC2 ∨ 0xF5 ≤ b.toNat) ∧ sequenceWidth b = 0 := by
  simp only [sequenceWidth, UInt8.lt_iff_toNat_lt, UInt8.reduceToNat]
  repeat' split
  all_goals omega

/-- A byte lies in the range of second bytes after a lead. -/
def IsSecond (lead b : UInt8) : Prop := (secondRange lead).1 ≤ b ∧ b ≤ (secondRange lead).2

instance (lead b : UInt8) : Decidable (IsSecond lead b) := inferInstanceAs (Decidable (_ ∧ _))

theorem isSecond_iff (lead b : UInt8) :
    IsSecond lead b ↔ 0x80 ≤ b.toNat ∧ b.toNat ≤ 0xBF ∧
      (lead.toNat = 0xE0 → 0xA0 ≤ b.toNat) ∧ (lead.toNat = 0xED → b.toNat ≤ 0x9F) ∧
      (lead.toNat = 0xF0 → 0x90 ≤ b.toNat) ∧ (lead.toNat = 0xF4 → b.toNat ≤ 0x8F) := by
  simp only [IsSecond, secondRange, ← UInt8.toNat_inj, UInt8.reduceToNat]
  split
  · simp only [UInt8.le_iff_toNat_le, UInt8.reduceToNat]; omega
  · split
    · simp only [UInt8.le_iff_toNat_le, UInt8.reduceToNat]; omega
    · split
      · simp only [UInt8.le_iff_toNat_le, UInt8.reduceToNat]; omega
      · split <;> (simp only [UInt8.le_iff_toNat_le, UInt8.reduceToNat]; omega)

/-- A character of ASCII is one byte. -/
theorem decodeHead_ascii {lead : UInt8} (h : lead.toNat < 0x80) (rest : Bytes) :
    decodeHead lead rest = .ok (Char.ofNat lead.toNat, 1) := by
  have hw : sequenceWidth lead = 1 := by
    have := sequenceWidth_cases lead
    omega
  unfold decodeHead
  split
  next h0 => omega
  next => rfl
  next more hne h2 => exact absurd (Nat.succ.inj (h2.symm.trans hw)) (fun h => hne (by rw [h]))

/-- A longer character is read off its lead and its continuation. -/
theorem decodeHead_long {lead : UInt8} {more : Nat} (hw : sequenceWidth lead = more + 2)
    {rest : Bytes} (hrest : more + 1 ≤ rest.length) :
    decodeHead lead rest
      = (continueCode (secondRange lead) (leadBits (more + 2) lead) 1 (rest.take (more + 1))).map
          fun code => (Char.ofNat code, more + 2) := by
  have hlength : (rest.take (more + 1)).length = more + 1 := by
    rw [List.length_take]
    omega
  unfold decodeHead
  split
  next h0 => omega
  next h1 => omega
  next more' _ h2 =>
    obtain rfl : more' = more + 1 := by omega
    dsimp only
    rw [if_neg (by omega)]

/-- A lead byte of a longer character is not read if the text ends too soon. -/
theorem decodeHead_truncated {lead : UInt8} {more : Nat} (hw : sequenceWidth lead = more + 2)
    {rest : Bytes} (hrest : rest.length < more + 1) :
    decodeHead lead rest = .error (.truncated (1 + rest.length)) := by
  have htake : rest.take (more + 1) = rest := List.take_of_length_le (Nat.le_of_lt hrest)
  unfold decodeHead
  split
  next h0 => omega
  next h1 => omega
  next more' _ h2 =>
    obtain rfl : more' = more + 1 := by omega
    dsimp only
    rw [htake, if_pos hrest]

/-- The continuation bytes of a character are in their ranges, and their bits make up the code. -/
theorem continueCode_eq_ok_iff (range : UInt8 × UInt8) (code place : Nat) (b : UInt8)
    (rest : Bytes) (result : Nat) :
    continueCode range code place (b :: rest) = .ok result ↔
      (range.1 ≤ b ∧ b ≤ range.2) ∧
        continueCode (0x80, 0xBF) (code * 0x40 + b.toNat % 0x40) (place + 1) rest = .ok result := by
  rw [continueCode]
  split
  next h => exact ⟨fun hr => ⟨h, hr⟩, fun hr => hr.2⟩
  next h =>
    constructor
    · intro hr
      cases hr
    · rintro ⟨hb, -⟩
      exact absurd hb h

/-! ## What is encoded is decoded -/

/-- The continuation byte that carries the last six bits of a number. -/
def continuation (n : Nat) : UInt8 := UInt8.ofNat (0x80 + n % 0x40)

theorem toNat_continuation (n : Nat) : (continuation n).toNat = 0x80 + n % 0x40 :=
  UInt8.toNat_ofNat_of_lt' (by have : UInt8.size = 256 := rfl; omega)

/-- Adds six bits to a code point. -/
def addBits (code n : Nat) : Nat := code * 0x40 + n % 0x40

/-- Continuation bytes add six bits each. -/
theorem continueCode_continuation {range : UInt8 × UInt8} {n : Nat}
    (h : range.1 ≤ continuation n ∧ continuation n ≤ range.2) (code place : Nat) (rest : Bytes) :
    continueCode range code place (continuation n :: rest)
      = continueCode (0x80, 0xBF) (addBits code n) (place + 1) rest := by
  have hbits : (0x80 + n % 0x40) % 0x40 = n % 0x40 := by omega
  rw [continueCode_cons_of_mem h, toNat_continuation, hbits]
  rfl

theorem continueCode_continuations (ns : List Nat) (code place : Nat) :
    continueCode (0x80, 0xBF) code place (ns.map continuation) = .ok (ns.foldl addBits code) := by
  induction ns generalizing code place with
  | nil => rfl
  | cons n ns ih =>
    have hrange : (0x80 : UInt8) ≤ continuation n ∧ continuation n ≤ (0xBF : UInt8) := by
      simp only [UInt8.le_iff_toNat_le, toNat_continuation, UInt8.reduceToNat]
      omega
    rw [List.map_cons, continueCode_continuation hrange, ih, List.foldl_cons]

/-- A lead byte and the continuation bytes that it announces are a character. -/
theorem decodeHead_continuations (c : Char) (n : Nat) (ns : List Nat) {lead : UInt8}
    (hw : sequenceWidth lead = ns.length + 2) (hsecond : IsSecond lead (continuation n))
    (hcode : (n :: ns).foldl addBits (leadBits (ns.length + 2) lead) = c.toNat) (rest : Bytes) :
    decodeHead lead ((n :: ns).map continuation ++ rest) = .ok (c, ns.length + 2) := by
  have htake : ((n :: ns).map continuation ++ rest).take (ns.length + 1)
      = (n :: ns).map continuation := by
    rw [List.take_append_of_le_length (by simp), List.take_of_length_le (by simp)]
  rw [decodeHead_long hw (by simp), htake, List.map_cons, continueCode_continuation hsecond,
    continueCode_continuations, ← List.foldl_cons, hcode, Except.map, Char.ofNat_toNat]

theorem encodeCode_one {n : Nat} (h : n < 0x80) : encodeCode n = [UInt8.ofNat n] := by
  unfold encodeCode
  exact if_pos h

theorem encodeCode_two {n : Nat} (hlo : 0x80 ≤ n) (h : n < 0x800) :
    encodeCode n = UInt8.ofNat (0xC0 + n / 0x40) :: [n].map continuation := by
  unfold encodeCode
  dsimp only
  rw [if_neg (by omega), if_pos h]
  rfl

theorem encodeCode_three {n : Nat} (hlo : 0x800 ≤ n) (h : n < 0x10000) :
    encodeCode n = UInt8.ofNat (0xE0 + n / 0x1000) :: [n / 0x40, n].map continuation := by
  unfold encodeCode
  dsimp only
  rw [if_neg (by omega), if_neg (by omega), if_pos h]
  rfl

theorem encodeCode_four {n : Nat} (hlo : 0x10000 ≤ n) :
    encodeCode n
      = UInt8.ofNat (0xF0 + n / 0x40000) :: [n / 0x1000, n / 0x40, n].map continuation := by
  unfold encodeCode
  dsimp only
  rw [if_neg (by omega), if_neg (by omega), if_neg (by omega)]
  rfl

theorem toNat_lt (c : Char) : c.toNat < 0x110000 := by
  rcases c.valid with h | h
  · exact Nat.lt_trans h (by decide)
  · exact h.2

/-- No character is a surrogate. -/
theorem toNat_not_surrogate (c : Char) : c.toNat < 0xD800 ∨ 0xDFFF < c.toNat := by
  rcases c.valid with h | h
  · exact Or.inl h
  · exact Or.inr h.1

/-- A character that is not of ASCII is a lead byte and the continuation bytes that it announces. -/
theorem exists_continuations {c : Char} (h : 0x80 ≤ c.toNat) :
    ∃ (lead : UInt8) (n : Nat) (ns : List Nat),
      encodeCode c.toNat = lead :: (n :: ns).map continuation ∧
      sequenceWidth lead = ns.length + 2 ∧ IsSecond lead (continuation n) ∧
      (n :: ns).foldl addBits (leadBits (ns.length + 2) lead) = c.toNat := by
  have hsurrogate := toNat_not_surrogate c
  have hmax := toNat_lt c
  have toNat_lead {n : Nat} (h : n < 0x100) : (UInt8.ofNat n).toNat = n :=
    UInt8.toNat_ofNat_of_lt' h
  rcases Nat.lt_or_ge c.toNat 0x800 with h2 | h2
  · have hlead := toNat_lead (n := 0xC0 + c.toNat / 0x40) (by omega)
    refine ⟨_, _, _, encodeCode_two h h2, ?_, ?_, ?_⟩
    · have := sequenceWidth_cases (UInt8.ofNat (0xC0 + c.toNat / 0x40))
      rw [List.length_nil]
      omega
    · rw [isSecond_iff, toNat_continuation, hlead]
      omega
    · simp only [List.length_nil, List.foldl_cons, List.foldl_nil, addBits, leadBits, hlead]
      omega
  rcases Nat.lt_or_ge c.toNat 0x10000 with h3 | h3
  · have hlead := toNat_lead (n := 0xE0 + c.toNat / 0x1000) (by omega)
    refine ⟨_, _, _, encodeCode_three h2 h3, ?_, ?_, ?_⟩
    · have := sequenceWidth_cases (UInt8.ofNat (0xE0 + c.toNat / 0x1000))
      rw [List.length_singleton]
      omega
    · -- an overlong form would have `n < 0x800`, a surrogate `0xD800 ≤ n < 0xE000`
      rw [isSecond_iff, toNat_continuation, hlead]
      omega
    · simp only [List.length_singleton, List.foldl_cons, List.foldl_nil, addBits, leadBits, hlead]
      omega
  · have hlead := toNat_lead (n := 0xF0 + c.toNat / 0x40000) (by omega)
    refine ⟨_, _, _, encodeCode_four h3, ?_, ?_, ?_⟩
    · have := sequenceWidth_cases (UInt8.ofNat (0xF0 + c.toNat / 0x40000))
      simp only [List.length_cons, List.length_nil]
      omega
    · rw [isSecond_iff, toNat_continuation, hlead]
      omega
    · simp only [List.length_cons, List.length_nil, List.foldl_cons, List.foldl_nil, addBits,
        leadBits, hlead]
      omega

/-- **The character that was encoded is the one that is decoded**, whatever follows. -/
theorem decodeHead_encodeCode (c : Char) (rest : Bytes) :
    ∃ lead tail, encodeCode c.toNat = lead :: tail ∧
      decodeHead lead (tail ++ rest) = .ok (c, (encodeCode c.toNat).length) := by
  rcases Nat.lt_or_ge c.toNat 0x80 with hascii | hlong
  · have hlead : (UInt8.ofNat c.toNat).toNat = c.toNat := by
      refine UInt8.toNat_ofNat_of_lt' ?_
      have : UInt8.size = 256 := rfl
      omega
    have he := encodeCode_one hascii
    refine ⟨_, _, he, ?_⟩
    rw [he, decodeHead_ascii (by omega), hlead, Char.ofNat_toNat]
    rfl
  · obtain ⟨lead, n, ns, he, hwidth, hsecond, hcode⟩ := exists_continuations hlong
    refine ⟨_, _, he, ?_⟩
    rw [he, decodeHead_continuations c n ns hwidth hsecond hcode]
    simp

/-! ## What is decoded was encoded -/

/-- A continuation byte is the one of its own number. -/
theorem continuation_toNat {b : UInt8} (h : 0x80 ≤ b.toNat ∧ b.toNat ≤ 0xBF) {n : Nat}
    (hn : n % 0x40 = b.toNat % 0x40) : continuation n = b := by
  rw [← UInt8.toNat_inj, toNat_continuation, hn]
  omega

theorem ofNat_eq_of_toNat {b : UInt8} {n : Nat} (h : n = b.toNat) : UInt8.ofNat n = b := by
  rw [h, UInt8.ofNat_toNat]

/-- A code point that is no surrogate is that of its character. -/
theorem toNat_ofNat_of_code {n : Nat} (h : n < 0xD800 ∨ 0xDFFF < n ∧ n < 0x110000) :
    (Char.ofNat n).toNat = n := by
  have hvalid : n.isValidChar := h
  unfold Char.ofNat
  rw [dif_pos hvalid]
  exact BitVec.toNat_ofNatLT ..

/-- Continuation bytes that were read lie in their range and make up the code. -/
theorem eq_of_continueCode {code place result : Nat} {bytes : Bytes}
    (h : continueCode (0x80, 0xBF) code place bytes = .ok result) :
    (∀ b ∈ bytes, 0x80 ≤ b.toNat ∧ b.toNat ≤ 0xBF)
      ∧ bytes.foldl (fun code b => addBits code b.toNat) code = result := by
  induction bytes generalizing code place with
  | nil =>
    cases h
    exact ⟨nofun, rfl⟩
  | cons b bytes ih =>
    obtain ⟨hb, hbytes⟩ := (continueCode_eq_ok_iff ..).1 h
    obtain ⟨hall, hfold⟩ := ih hbytes
    have hrange : 0x80 ≤ b.toNat ∧ b.toNat ≤ 0xBF := by
      simpa only [UInt8.le_iff_toNat_le, UInt8.reduceToNat] using hb
    exact ⟨List.forall_mem_cons.2 ⟨hrange, hall⟩, hfold⟩

/-- What was read behind the lead byte of a longer character. -/
theorem exists_continuation_of_decodeHead {lead : UInt8} {more : Nat}
    (hw : sequenceWidth lead = more + 2) {rest : Bytes} {c : Char} {width : Nat}
    (h : decodeHead lead rest = .ok (c, width)) :
    ∃ b bytes post, rest = b :: (bytes ++ post) ∧ bytes.length = more ∧ IsSecond lead b ∧
      (∀ b ∈ bytes, 0x80 ≤ b.toNat ∧ b.toNat ≤ 0xBF) ∧ width = more + 2 ∧
      c = Char.ofNat (bytes.foldl (fun code b => addBits code b.toNat)
        (addBits (leadBits (more + 2) lead) b.toNat)) := by
  rcases Nat.lt_or_ge rest.length (more + 1) with hshort | hlong
  · rw [decodeHead_truncated hw hshort] at h
    cases h
  rw [decodeHead_long hw hlong] at h
  obtain ⟨b, rest, rfl⟩ :=
    List.exists_cons_of_length_pos (Nat.lt_of_lt_of_le (Nat.succ_pos _) hlong)
  rw [List.take_succ_cons] at h
  generalize hcode : continueCode _ _ _ _ = r at h
  cases r with
  | error m => cases h
  | ok code =>
    cases h
    obtain ⟨hsecond, hrest⟩ := (continueCode_eq_ok_iff ..).1 hcode
    obtain ⟨hall, hfold⟩ := eq_of_continueCode hrest
    have hlength : (rest.take more).length = more := by
      rw [List.length_take]
      have hcons : (b :: rest).length = rest.length + 1 := rfl
      omega
    exact ⟨b, rest.take more, rest.drop more, by rw [List.take_append_drop], hlength, hsecond,
      hall, rfl, by rw [← hfold]; rfl⟩

/-- **The character that is decoded is the one that was encoded there.** -/
theorem eq_encodeCode_of_decodeHead {lead : UInt8} {rest : Bytes} {c : Char} {width : Nat}
    (h : decodeHead lead rest = .ok (c, width)) :
    ∃ post, lead :: rest = encodeCode c.toNat ++ post ∧ width = (encodeCode c.toNat).length := by
  rcases sequenceWidth_cases lead with
    ⟨hl, -⟩ | ⟨hlo, hhi, hw⟩ | ⟨hlo, hhi, hw⟩ | ⟨hlo, hhi, hw⟩ | ⟨-, hw⟩
  · rw [decodeHead_ascii hl] at h
    cases h
    rw [toNat_ofNat_of_code (by omega), encodeCode_one hl, UInt8.ofNat_toNat]
    exact ⟨rest, rfl, rfl⟩
  · -- two bytes: the leads `C0` and `C1` would make an overlong form
    obtain ⟨b, bytes, post, rfl, hlength, hsecond, -, rfl, rfl⟩ :=
      exists_continuation_of_decodeHead hw h
    obtain rfl := List.length_eq_zero_iff.1 hlength
    rw [isSecond_iff] at hsecond
    simp only [List.foldl_nil, leadBits, addBits]
    generalize hn : lead.toNat % 0x20 * 0x40 + b.toNat % 0x40 = n
    rw [toNat_ofNat_of_code (by omega), encodeCode_two (by omega) (by omega),
      ofNat_eq_of_toNat (b := lead) (by omega), List.map_singleton,
      continuation_toNat (b := b) (by omega) (by omega)]
    exact ⟨post, rfl, rfl⟩
  · -- three bytes: the second one shuts out overlong forms and surrogates
    obtain ⟨b, bytes, post, rfl, hlength, hsecond, hall, rfl, rfl⟩ :=
      exists_continuation_of_decodeHead hw h
    obtain ⟨b₁, rfl⟩ := List.length_eq_one_iff.1 hlength
    have hb₁ := hall b₁ (by simp)
    rw [isSecond_iff] at hsecond
    simp only [List.foldl_cons, List.foldl_nil, leadBits, addBits]
    generalize hn : (lead.toNat % 0x10 * 0x40 + b.toNat % 0x40) * 0x40 + b₁.toNat % 0x40 = n
    rw [toNat_ofNat_of_code (by omega), encodeCode_three (by omega) (by omega),
      ofNat_eq_of_toNat (b := lead) (by omega)]
    simp only [List.map_cons, List.map_nil]
    rw [continuation_toNat (b := b) (by omega) (by omega),
      continuation_toNat (b := b₁) (by omega) (by omega)]
    exact ⟨post, rfl, rfl⟩
  · -- four bytes: the second one keeps the code between `0x10000` and `0x10FFFF`
    obtain ⟨b, bytes, post, rfl, hlength, hsecond, hall, rfl, rfl⟩ :=
      exists_continuation_of_decodeHead hw h
    obtain ⟨b₁, b₂, rfl⟩ : ∃ b₁ b₂, bytes = [b₁, b₂] :=
      match bytes, hlength with
      | [b₁, b₂], _ => ⟨b₁, b₂, rfl⟩
    have hb₁ := hall b₁ (by simp)
    have hb₂ := hall b₂ (by simp)
    rw [isSecond_iff] at hsecond
    simp only [List.foldl_cons, List.foldl_nil, leadBits, addBits]
    generalize hn : ((lead.toNat % 0x08 * 0x40 + b.toNat % 0x40) * 0x40 + b₁.toNat % 0x40) * 0x40
      + b₂.toNat % 0x40 = n
    rw [toNat_ofNat_of_code (by omega), encodeCode_four (by omega),
      ofNat_eq_of_toNat (b := lead) (by omega)]
    simp only [List.map_cons, List.map_nil]
    rw [continuation_toNat (b := b) (by omega) (by omega),
      continuation_toNat (b := b₁) (by omega) (by omega),
      continuation_toNat (b := b₂) (by omega) (by omega)]
    exact ⟨post, rfl, rfl⟩
  · unfold decodeHead at h
    rw [hw] at h
    cases h

/-! ## The front of a text -/

/-- What is wrong at the front of some bytes, if no character stands there. -/
def frontFault? : Bytes → Option Malformed
  | [] => none
  | lead :: rest =>
    match decodeHead lead rest with
    | .ok _ => none
    | .error m => some m

@[simp] theorem frontFault?_nil : frontFault? [] = none := rfl

/-- Where something is wrong, a byte stands with which no character begins. -/
theorem exists_of_frontFault {bytes : Bytes} {m : Malformed} (h : frontFault? bytes = some m) :
    ∃ lead rest, bytes = lead :: rest ∧ decodeHead lead rest = .error m := by
  cases bytes with
  | nil => cases h
  | cons lead rest =>
    rw [frontFault?] at h
    cases hdecode : decodeHead lead rest with
    | ok found =>
      rw [hdecode] at h
      cases h
    | error m' =>
      rw [hdecode] at h
      cases h
      exact ⟨lead, rest, rfl, hdecode⟩

/-- An encoded character is a lead byte with a tail, which are read as this character. -/
theorem encodeCode_append (c : Char) (rest : Bytes) :
    ∃ lead tail, encodeCode c.toNat ++ rest = lead :: (tail ++ rest) ∧
      decodeHead lead (tail ++ rest) = .ok (c, tail.length + 1) := by
  obtain ⟨lead, tail, he, hdecode⟩ := decodeHead_encodeCode c rest
  refine ⟨lead, tail, ?_, ?_⟩
  · rw [he, List.cons_append]
  · rw [hdecode, he, List.length_cons]

@[simp] theorem frontFault?_encodeCode (c : Char) (rest : Bytes) :
    frontFault? (encodeCode c.toNat ++ rest) = none := by
  obtain ⟨lead, tail, he, hdecode⟩ := encodeCode_append c rest
  rw [he, frontFault?, hdecode]

/-- **Bytes are empty, malformed at the front, or an encoded character with a rest.** -/
theorem front_cases (bytes : Bytes) :
    bytes = [] ∨ (∃ m, frontFault? bytes = some m) ∨
      ∃ (c : Char) (rest : Bytes), bytes = encodeCode c.toNat ++ rest := by
  rcases bytes with - | ⟨lead, rest⟩
  · exact Or.inl rfl
  · cases h : decodeHead lead rest with
    | error m => exact Or.inr (Or.inl ⟨m, by rw [frontFault?, h]⟩)
    | ok found =>
      obtain ⟨c, width⟩ := found
      obtain ⟨post, hpost, -⟩ := eq_encodeCode_of_decodeHead h
      exact Or.inr (Or.inr ⟨c, post, hpost⟩)

/-- No other character stands where one was encoded. -/
theorem encodeCode_append_inj {c d : Char} {s t : Bytes}
    (h : encodeCode c.toNat ++ s = encodeCode d.toNat ++ t) : c = d ∧ s = t := by
  obtain ⟨lead, tail, hc, hdc⟩ := encodeCode_append c s
  obtain ⟨lead', tail', hd, hdd⟩ := encodeCode_append d t
  rw [hc, hd] at h
  obtain ⟨rfl, htail⟩ := List.cons.inj h
  rw [htail, hdd] at hdc
  obtain ⟨rfl, hlength⟩ := Prod.mk.inj (Except.ok.inj hdc)
  exact ⟨rfl, (List.append_inj htail (by omega)).2⟩

theorem length_encodeCode_pos (c : Char) : 0 < (encodeCode c.toNat).length := by
  obtain ⟨lead, tail, he, -⟩ := decodeHead_encodeCode c []
  rw [he, List.length_cons]
  exact Nat.succ_pos _

/--
What holds of the empty text, of every text with a malformed front if it holds behind the first byte,
and of every text with a character in front if it holds behind that, holds of all texts.
-/
@[elab_as_elim]
theorem front_induction {motive : Bytes → Prop} (bytes : Bytes) (nil : motive [])
    (malformed : ∀ (lead : UInt8) (rest : Bytes) (m : Malformed),
      decodeHead lead rest = .error m → motive rest → motive (lead :: rest))
    (encoded : ∀ (c : Char) (rest : Bytes), motive rest → motive (encodeCode c.toNat ++ rest)) :
    motive bytes := by
  induction hn : bytes.length using Nat.strongRecOn generalizing bytes with
  | ind n ih =>
    subst hn
    rcases front_cases bytes with rfl | ⟨m, hm⟩ | ⟨c, rest, rfl⟩
    · exact nil
    · obtain ⟨lead, rest, rfl, hdecode⟩ := exists_of_frontFault hm
      exact malformed lead rest m hdecode (ih rest.length (Nat.lt_succ_self _) rest rfl)
    · have hpos := length_encodeCode_pos c
      exact encoded c rest (ih rest.length (by rw [List.length_append]; omega) rest rfl)

theorem encodeCode_append_ne_nil (c : Char) (rest : Bytes) : encodeCode c.toNat ++ rest ≠ [] := by
  obtain ⟨lead, tail, he, -⟩ := encodeCode_append c rest
  rw [he]
  exact List.cons_ne_nil _ _

/-- Only the empty text is encoded as nothing. -/
theorem length_encode_pos_iff (text : List Char) : 0 < (encode text).length ↔ text ≠ [] := by
  cases text with
  | nil => simp
  | cons c text =>
    have hpos := length_encodeCode_pos c
    rw [encode_cons, List.length_append]
    constructor
    · intro _
      exact List.cons_ne_nil c text
    · intro _
      omega

/-! ## Whole texts -/

theorem decode?_encodeCode (c : Char) (rest : Bytes) :
    decode? (encodeCode c.toNat ++ rest) = (decode? rest).map (c :: ·) := by
  obtain ⟨lead, tail, he, hdecode⟩ := encodeCode_append c rest
  rw [he, decode?, hdecode]
  simp

/-- **A text that was encoded is read back.** -/
theorem decode?_encode (text : List Char) : decode? (encode text) = some text := by
  induction text with
  | nil => exact decode?_nil
  | cons c text ih => rw [encode_cons, decode?_encodeCode, ih, Option.map_some]

/-- Bytes are read as a text if and only if they are its encoding. -/
theorem decode?_eq_some_iff {bytes : Bytes} {text : List Char} :
    decode? bytes = some text ↔ bytes = encode text := by
  constructor
  · intro h
    induction bytes using front_induction generalizing text with
    | nil =>
      rw [decode?_nil] at h
      cases h
      rfl
    | malformed lead rest m hdecode ih =>
      rw [decode?, hdecode] at h
      cases h
    | encoded c rest ih =>
      rw [decode?_encodeCode] at h
      obtain ⟨text', htext, rfl⟩ := Option.map_eq_some_iff.1 h
      rw [encode_cons, ih htext]
  · rintro rfl
    exact decode?_encode text

theorem strictFrom_encodeCode (offset : Nat) (c : Char) (rest : Bytes) :
    (strictFrom offset (encodeCode c.toNat ++ rest)).2
      = (strictFrom (offset + (encodeCode c.toNat).length) rest).2 := by
  obtain ⟨lead, tail, he, hdecode⟩ := encodeCode_append c rest
  have hlength := congrArg List.length he
  simp only [List.length_append, List.length_cons] at hlength
  rw [he, strictFrom, hdecode]
  simp only [Nat.add_sub_cancel, List.drop_left]
  rw [show (encodeCode c.toNat).length = tail.length + 1 by omega]

/-- What stands in front of the first malformed bytes is an encoded text. -/
theorem eq_of_strictFrom {offset p : Nat} {bytes : Bytes} {m : Malformed}
    (h : (strictFrom offset bytes).2 = some (p, m)) :
    ∃ text bad, bytes = encode text ++ bad ∧ p = offset + (encode text).length ∧
      frontFault? bad = some m := by
  induction bytes using front_induction generalizing offset with
  | nil =>
    rw [strictFrom] at h
    cases h
  | malformed lead rest m' hdecode ih =>
    rw [strictFrom, hdecode] at h
    cases h
    exact ⟨[], _, rfl, rfl, by rw [frontFault?, hdecode]⟩
  | encoded c rest ih =>
    rw [strictFrom_encodeCode] at h
    obtain ⟨text, bad, rfl, rfl, hbad⟩ := ih h
    refine ⟨c :: text, bad, ?_, ?_, hbad⟩
    · rw [encode_cons, List.append_assoc]
    · rw [encode_cons, List.length_append, Nat.add_assoc]

theorem lenientFrom_encodeCode (offset : Nat) (c : Char) (rest : Bytes) :
    lenientFrom offset (encodeCode c.toNat ++ rest)
      = (offset, c) :: lenientFrom (offset + (encodeCode c.toNat).length) rest := by
  obtain ⟨lead, tail, he, hdecode⟩ := encodeCode_append c rest
  have hlength := congrArg List.length he
  simp only [List.length_append, List.length_cons] at hlength
  rw [he, lenientFrom, hdecode]
  simp only [Nat.add_sub_cancel, List.drop_left]
  rw [show (encodeCode c.toNat).length = tail.length + 1 by omega]

theorem lenientFrom_malformed (offset : Nat) {lead : UInt8} {rest : Bytes} {m : Malformed}
    (h : decodeHead lead rest = .error m) :
    lenientFrom offset (lead :: rest) = (offset, replacement) :: lenientFrom (offset + 1) rest := by
  rw [lenientFrom, h]

/-- In an encoded text nothing is wrong. -/
theorem frontFault?_encode (text : List Char) : frontFault? (encode text) = none := by
  cases text with
  | nil => rfl
  | cons c text => rw [encode_cons, frontFault?_encodeCode]

/-- Encodings of two texts are different. -/
theorem encode_injective {s t : List Char} (h : encode s = encode t) : s = t := by
  have hdecode := decode?_encode s
  rw [h, decode?_encode] at hdecode
  exact (Option.some.inj hdecode).symm

/-- What stands behind a text in another one is encoded too. -/
theorem exists_rest_of_encode {s t : List Char} {u : Bytes} (h : encode s = encode t ++ u) :
    ∃ rest, s = t ++ rest ∧ u = encode rest := by
  induction t generalizing s with
  | nil => exact ⟨s, rfl, h.symm⟩
  | cons c t ih =>
    rw [encode_cons, List.append_assoc] at h
    cases s with
    | nil => exact absurd h.symm (encodeCode_append_ne_nil c _)
    | cons d s =>
      obtain ⟨rfl, htail⟩ := encodeCode_append_inj h
      obtain ⟨rest, rfl, hu⟩ := ih htail
      exact ⟨rest, rfl, hu⟩

/-- A longer text at the same place goes on where the shorter one ends. -/
theorem exists_more_of_encode {s t : List Char} {u v : Bytes} (h : encode s ++ u = encode t ++ v)
    (hlength : s.length < t.length) :
    ∃ c more, t = s ++ c :: more ∧ u = encodeCode c.toNat ++ (encode more ++ v) := by
  induction s generalizing t with
  | nil =>
    obtain ⟨c, more, rfl⟩ := List.exists_cons_of_ne_nil (List.ne_nil_of_length_pos hlength)
    rw [encode_nil, List.nil_append, encode_cons, List.append_assoc] at h
    exact ⟨c, more, rfl, h⟩
  | cons d s ih =>
    obtain ⟨d', t, rfl⟩ := List.exists_cons_of_ne_nil
      (List.ne_nil_of_length_pos (Nat.lt_of_le_of_lt (Nat.zero_le _) hlength))
    simp only [encode_cons, List.append_assoc] at h
    obtain ⟨rfl, htail⟩ := encodeCode_append_inj h
    obtain ⟨c, more, rfl, hu⟩ := ih htail (Nat.lt_of_succ_lt_succ hlength)
    exact ⟨c, more, rfl, hu⟩

theorem encodeCodes_map_toNat (text : List Char) :
    encodeCodes (text.map Char.toNat) = encode text := by
  rw [encodeCodes, List.flatMap_map, encode]

/-- A text of ASCII is encoded byte by byte. -/
theorem encode_ascii {text : List Char} (h : ∀ c ∈ text, c.toNat < 0x80) :
    encode text = text.map fun c => UInt8.ofNat c.toNat := by
  induction text with
  | nil => rfl
  | cons c text ih =>
    obtain ⟨hc, htext⟩ := List.forall_mem_cons.1 h
    rw [encode_cons, encodeCode_one hc, ih htext]
    rfl

/-- A character has the bytes that strings have for it. -/
theorem utf8EncodeChar_eq (c : Char) : String.utf8EncodeChar c = encodeCode c.toNat := by
  have hmax := toNat_lt c
  have hval : c.val.toNat = c.toNat := rfl
  unfold String.utf8EncodeChar encodeCode
  simp only [hval]
  by_cases h1 : c.toNat < 0x80
  · rw [if_pos (show c.toNat ≤ 0x7f by omega), if_pos h1]
  by_cases h2 : c.toNat < 0x800
  · rw [if_neg (show ¬ c.toNat ≤ 0x7f by omega), if_pos (show c.toNat ≤ 0x7ff by omega), if_neg h1,
      if_pos h2, show c.toNat / 64 % 0x20 = c.toNat / 0x40 by omega,
      Nat.add_comm (c.toNat / 0x40), Nat.add_comm (c.toNat % 0x40)]
  by_cases h3 : c.toNat < 0x10000
  · rw [if_neg (show ¬ c.toNat ≤ 0x7f by omega), if_neg (show ¬ c.toNat ≤ 0x7ff by omega),
      if_pos (show c.toNat ≤ 0xffff by omega), if_neg h1, if_neg h2, if_pos h3,
      show c.toNat / 4096 % 0x10 = c.toNat / 0x1000 by omega, Nat.add_comm (c.toNat / 0x1000),
      Nat.add_comm (c.toNat / 64 % 0x40), Nat.add_comm (c.toNat % 0x40)]
  · rw [if_neg (show ¬ c.toNat ≤ 0x7f by omega), if_neg (show ¬ c.toNat ≤ 0x7ff by omega),
      if_neg (show ¬ c.toNat ≤ 0xffff by omega), if_neg h1, if_neg h2, if_neg h3,
      show c.toNat / 262144 % 0x08 = c.toNat / 0x40000 by omega, Nat.add_comm (c.toNat / 0x40000),
      Nat.add_comm (c.toNat / 4096 % 0x40), Nat.add_comm (c.toNat / 64 % 0x40),
      Nat.add_comm (c.toNat % 0x40)]

/-- A text has the bytes of its string. -/
theorem toUTF8_ofList (text : List Char) :
    (String.ofList text).toUTF8.data.toList = encode text := by
  rw [String.toUTF8_eq_toByteArray, String.toByteArray_ofList, List.utf8Encode,
    List.toList_data_toByteArray, encode, funext utf8EncodeChar_eq]

/-! ## Where a run of characters stops -/

/-- No character that passes a test stands at the front of some bytes. -/
def Stops (test : Char → Bool) (bytes : Bytes) : Prop :=
  ∀ (c : Char) (rest : Bytes), bytes = encodeCode c.toNat ++ rest → test c = false

theorem stops_nil (test : Char → Bool) : Stops test [] := by
  intro c rest h
  exact absurd h.symm (encodeCode_append_ne_nil c rest)

theorem stops_of_frontFault {test : Char → Bool} {bytes : Bytes} {m : Malformed}
    (h : frontFault? bytes = some m) : Stops test bytes := by
  rintro c rest rfl
  rw [frontFault?_encodeCode] at h
  cases h

theorem stops_encodeCode {test : Char → Bool} {c : Char} {rest : Bytes} :
    Stops test (encodeCode c.toNat ++ rest) ↔ test c = false := by
  constructor
  · intro h
    exact h c rest rfl
  · intro h d rest' heq
    obtain ⟨rfl, -⟩ := encodeCode_append_inj heq
    exact h

/-- Behind a longest run no character passes the test. -/
theorem stops_dropWhile (test : Char → Bool) (text : List Char) :
    Stops test (encode (text.dropWhile test)) := by
  induction text with
  | nil => exact stops_nil test
  | cons c text ih =>
    by_cases hc : test c = true
    · rw [List.dropWhile_cons_of_pos hc]
      exact ih
    · rw [List.dropWhile_cons_of_neg hc, encode_cons, stops_encodeCode]
      exact Bool.eq_false_iff.2 hc

/-- Every text is a longest run of characters that pass a test, and what it stops at. -/
theorem exists_run (test : Char → Bool) (bytes : Bytes) :
    ∃ (run : List Char) (rest : Bytes), bytes = encode run ++ rest ∧ (∀ c ∈ run, test c = true)
      ∧ Stops test rest := by
  induction bytes using front_induction with
  | nil => exact ⟨[], [], rfl, nofun, stops_nil test⟩
  | malformed lead rest m hdecode ih =>
    exact ⟨[], lead :: rest, rfl, nofun, stops_of_frontFault (by rw [frontFault?, hdecode])⟩
  | encoded c rest ih =>
    cases hc : test c with
    | false => exact ⟨[], _, rfl, nofun, stops_encodeCode.2 hc⟩
    | true =>
      obtain ⟨run, post, rfl, hrun, hpost⟩ := ih
      refine ⟨c :: run, post, ?_, List.forall_mem_cons.2 ⟨hc, hrun⟩, hpost⟩
      rw [encode_cons, List.append_assoc]

end Arith.Utf8
