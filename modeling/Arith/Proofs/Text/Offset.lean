import Arith.Proofs.Text.Encoding
import Arith.Text.Decode

/-!
# Offsets of characters

Reading at an offset brings the character whose encoding stands there, whatever stands before and
behind it. Where none stands, the blame is put on bytes from this offset on, at least one, which all
lie in the text (`decodeAt_exact`).

The offsets at which a character begins are told by one byte: the first byte of a character is no
continuation byte, and all others are (`isBoundary_lead`, `isBoundary_inside`). So in an encoded
text the boundaries are the lengths of the encodings of its beginnings (`isBoundary_encode_iff`).
-/

namespace Arith.Utf8

/-! ## The bytes to blame -/

/-- A continuation byte that is out of its range is one of those that were looked at. -/
theorem place_of_continueCode {range : UInt8 × UInt8} {code place : Nat} {bytes : Bytes}
    {m : Malformed} (h : continueCode range code place bytes = .error m) :
    place < m.size ∧ m.size ≤ place + bytes.length := by
  induction bytes generalizing range code place with
  | nil => cases h
  | cons b bytes ih =>
    rw [continueCode] at h
    rw [List.length_cons]
    split at h
    · have := ih h
      omega
    · cases h
      simp only [Malformed.size]
      omega

/-- At least one byte is to blame, and none behind the end of the text. -/
theorem size_of_decodeHead {lead : UInt8} {rest : Bytes} {m : Malformed}
    (h : decodeHead lead rest = .error m) : 0 < m.size ∧ m.size ≤ (lead :: rest).length := by
  rw [List.length_cons]
  unfold decodeHead at h
  split at h
  · cases h
    simp [Malformed.size]
  · cases h
  next more _ _ =>
    have htake : (rest.take more).length ≤ rest.length := List.length_take_le' _ _
    dsimp only at h
    split at h
    · cases h
      simp only [Malformed.size]
      omega
    · -- only as many bytes as the lead byte asks for were looked at
      generalize hcode : continueCode _ _ _ _ = r at h
      cases r with
      | ok code => cases h
      | error m' =>
        cases h
        have := place_of_continueCode hcode
        omega

/-! ## Reading at an offset -/

/-- What is read at an offset from the beginning of a text. -/
theorem decodeAt_natCast (text : Bytes) (start : Nat) :
    decodeAt text start = match text.drop start with
      | [] => .error (.text ⟨.endOfText, .point start⟩)
      | lead :: rest =>
        match decodeHead lead rest with
        | .ok found => .ok found
        | .error m => .error (.text (.ofMalformed start m)) := by
  have hnonneg : (0 : Int) ≤ start := Int.natCast_nonneg start
  unfold decodeAt
  rw [if_pos hnonneg, if_neg (by omega), Int.toNat_natCast]
  cases text.drop start with
  | nil => rfl
  | cons lead rest =>
    dsimp only
    cases decodeHead lead rest with
    | ok found => rfl
    | error m =>
      have hspan : Span.ofInts start (start + m.size) = .ok (.ofLength start m.size) :=
        Span.ofInts_natCast (Nat.le_add_right start m.size)
      dsimp only
      rw [hspan]
      rfl

/-- **The character that was encoded is the one that is read**, whatever stands around it. -/
theorem decodeAt_encodeCode (c : Char) (pre post : Bytes) :
    decodeAt (pre ++ (encodeCode c.toNat ++ post)) pre.length
      = .ok (c, (encodeCode c.toNat).length) := by
  obtain ⟨lead, tail, he, hdecode⟩ := decodeHead_encodeCode c post
  rw [decodeAt_natCast, List.drop_left, he, List.cons_append]
  dsimp only
  rw [hdecode, he]

/-- **A character is read just where it stands encoded.** -/
theorem decodeAt_eq_ok_iff {text : Bytes} {start : Nat} {c : Char} {width : Nat} :
    decodeAt text start = .ok (c, width) ↔
      ∃ pre post, text = pre ++ (encodeCode c.toNat ++ post) ∧ start = pre.length ∧
        width = (encodeCode c.toNat).length := by
  constructor
  · intro h
    rw [decodeAt_natCast] at h
    cases hdrop : text.drop start with
    | nil =>
      rw [hdrop] at h
      cases h
    | cons lead rest =>
      rw [hdrop] at h
      dsimp only at h
      cases hdecode : decodeHead lead rest with
      | error m =>
        rw [hdecode] at h
        cases h
      | ok found =>
        rw [hdecode] at h
        cases h
        obtain ⟨post, hpost, hwidth⟩ := eq_encodeCode_of_decodeHead hdecode
        have hstart : start < text.length := by
          have hlength := congrArg List.length hdrop
          rw [List.length_drop, List.length_cons] at hlength
          omega
        refine ⟨text.take start, post, ?_, ?_, hwidth⟩
        · rw [← hpost, ← hdrop, List.take_append_drop]
        · rw [List.length_take_of_le (Nat.le_of_lt hstart)]
  · rintro ⟨pre, post, rfl, rfl, rfl⟩
    exact decodeAt_encodeCode c pre post

/-- Where no character is read in a text, bytes of the text from there on are to blame. -/
theorem eq_malformed_of_decodeAt {text : Bytes} {start : Nat} {f : DecodeFault}
    (hstart : start < text.length) (h : decodeAt text start = .error f) :
    ∃ m : Malformed, f = .text (.ofMalformed start m) ∧ 0 < m.size ∧
      start + m.size ≤ text.length := by
  rw [decodeAt_natCast] at h
  have hlength : (text.drop start).length = text.length - start := List.length_drop
  cases hdrop : text.drop start with
  | nil =>
    rw [hdrop, List.length_nil] at hlength
    omega
  | cons lead rest =>
    rw [hdrop] at h hlength
    dsimp only at h
    cases hdecode : decodeHead lead rest with
    | ok found =>
      rw [hdecode] at h
      cases h
    | error m =>
      rw [hdecode] at h
      cases h
      obtain ⟨hpos, hle⟩ := size_of_decodeHead hdecode
      exact ⟨m, rfl, hpos, by omega⟩

/--
**Reading accepts the encodings of characters and nothing else.** Each is read at any place of any
text; whatever is read at an offset stands there encoded; and in all other cases the bytes to blame
begin at the offset, are at least one, and lie in the text.
-/
theorem decodeAt_exact :
    (∀ (c : Char) (pre post : Bytes),
      decodeAt (pre ++ String.utf8EncodeChar c ++ post) pre.length
        = .ok (c, (String.utf8EncodeChar c).length)) ∧
    ∀ (text : Bytes) (start : Nat), start < text.length →
      (∃ c width, decodeAt text start = .ok (c, width) ∧ start + width ≤ text.length ∧
        (text.drop start).take width = String.utf8EncodeChar c) ∨
      ∃ m span, decodeAt text start = .error (.text ⟨.malformed m, span⟩) ∧ span.start = start ∧
        start < span.stop ∧ span.stop ≤ text.length := by
  simp only [utf8EncodeChar_eq]
  constructor
  · intro c pre post
    rw [List.append_assoc]
    exact decodeAt_encodeCode c pre post
  · intro text start hstart
    cases hread : decodeAt text start with
    | ok found =>
      obtain ⟨c, width⟩ := found
      obtain ⟨pre, post, rfl, rfl, rfl⟩ := decodeAt_eq_ok_iff.1 hread
      refine Or.inl ⟨c, _, rfl, ?_, ?_⟩
      · rw [List.length_append, List.length_append]
        omega
      · rw [List.drop_left, List.take_left]
    | error f =>
      obtain ⟨m, rfl, hpos, hle⟩ := eq_malformed_of_decodeAt hstart hread
      exact Or.inr ⟨m, _, rfl, rfl, Nat.lt_add_of_pos_right hpos, hle⟩

/-- A surrogate behind a letter is not read: its second byte is to blame. -/
theorem decodeAt_exact_surrogate :
    let text : Bytes := [0x41, 0xED, 0xA0, 0x80, 0x41]
    1 < text.length ∧ ∃ m span, decodeAt text 1 = .error (.text ⟨.malformed m, span⟩) ∧
      span.start = 1 ∧ 1 < span.stop ∧ span.stop ≤ text.length := by
  intro text
  have hfault : decodeAt text 1
      = .error (.text ⟨.malformed (.badContinuation 1 0xA0), .ofLength 1 2⟩) := rfl
  refine ⟨by decide, (decodeAt_exact.2 text 1 (by decide)).resolve_left ?_⟩
  rintro ⟨c, width, hread, -⟩
  rw [show ((1 : Nat) : Int) = 1 from rfl, hfault] at hread
  cases hread

/-! ## Where characters begin -/

theorem isContinuation_continuation (n : Nat) : isContinuation (continuation n) = true := by
  simp only [isContinuation, Bool.and_eq_true, decide_eq_true_eq, UInt8.le_iff_toNat_le,
    toNat_continuation, UInt8.reduceToNat]
  omega

/-- All bytes of a character but the first are continuation bytes. -/
theorem encodeCode_eq_cons (c : Char) :
    ∃ lead tail, encodeCode c.toNat = lead :: tail ∧ isContinuation lead = false ∧
      ∀ b ∈ tail, isContinuation b = true := by
  obtain ⟨lead, tail, he, hdecode⟩ := decodeHead_encodeCode c []
  refine ⟨lead, tail, he, isContinuation_of_decodeHead hdecode, ?_⟩
  intro b hb
  rcases Nat.lt_or_ge c.toNat 0x80 with hascii | hlong
  · rw [encodeCode_one hascii] at he
    cases he
    cases hb
  · obtain ⟨lead', n, ns, he', -, -, -⟩ := exists_continuations hlong
    obtain ⟨-, rfl⟩ := List.cons.inj (he.symm.trans he')
    obtain ⟨k, -, rfl⟩ := List.mem_map.1 hb
    exact isContinuation_continuation k

/-- Inside a text the byte at an offset tells whether it is a boundary. -/
theorem isBoundary_of_getElem? {text : Bytes} {offset : Nat} {b : UInt8} (hpos : 0 < offset)
    (hb : text[offset]? = some b) : isBoundary text offset = !isContinuation b := by
  have hlt : offset < text.length := (List.getElem?_eq_some_iff.1 hb).1
  unfold isBoundary
  rw [if_neg (by omega), if_neg (by omega), Int.toNat_natCast, hb]

/-- Only the byte at an offset behind the beginning tells that it is no boundary. -/
theorem isBoundary_eq_false_iff {text : Bytes} {offset : Nat} (h : offset ≤ text.length) :
    isBoundary text offset = false ↔
      0 < offset ∧ ∃ b, text[offset]? = some b ∧ isContinuation b = true := by
  constructor
  · intro hfalse
    unfold isBoundary at hfalse
    split at hfalse
    · cases hfalse
    next hends =>
      have hb : text[offset]? = some text[offset] := List.getElem?_eq_getElem (by omega)
      rw [if_neg (by omega), Int.toNat_natCast, hb] at hfalse
      exact ⟨by omega, _, hb, by simpa using hfalse⟩
  · rintro ⟨hpos, b, hb, hcontinuation⟩
    rw [isBoundary_of_getElem? hpos hb, hcontinuation]
    rfl

/-- Where a character begins, there is a boundary. -/
theorem isBoundary_lead (c : Char) (pre post : Bytes) :
    isBoundary (pre ++ (encodeCode c.toNat ++ post)) pre.length = true := by
  obtain ⟨lead, tail, he, hlead, -⟩ := encodeCode_eq_cons c
  rcases Nat.eq_zero_or_pos pre.length with hzero | hpos
  · unfold isBoundary
    rw [if_pos (Or.inl (by omega))]
  · have hget : (pre ++ (encodeCode c.toNat ++ post))[pre.length]? = some lead := by
      rw [List.getElem?_append_right (Nat.le_refl _), Nat.sub_self, he]
      rfl
    rw [isBoundary_of_getElem? hpos hget, hlead]
    rfl

/-- Inside a character there is no boundary. -/
theorem isBoundary_inside (c : Char) (pre post : Bytes) {i : Nat} (hpos : 0 < i)
    (hlt : i < (encodeCode c.toNat).length) :
    isBoundary (pre ++ (encodeCode c.toNat ++ post)) (pre.length + i : Nat) = false := by
  obtain ⟨lead, tail, he, -, htail⟩ := encodeCode_eq_cons c
  obtain ⟨j, rfl⟩ : ∃ j, i = j + 1 := ⟨i - 1, by omega⟩
  rw [he, List.length_cons] at hlt
  have hj : j < tail.length := by omega
  have hget : (pre ++ (encodeCode c.toNat ++ post))[pre.length + (j + 1)]? = some tail[j] := by
    rw [List.getElem?_append_right (Nat.le_add_right _ _), Nat.add_sub_cancel_left, he,
      List.cons_append, List.getElem?_cons_succ, List.getElem?_append_left hj,
      List.getElem?_eq_getElem hj]
  rw [isBoundary_of_getElem? (by omega) hget, htail _ (List.getElem_mem hj)]
  rfl

/-- The end of a text is a boundary. -/
theorem isBoundary_length (text : Bytes) : isBoundary text text.length = true := by
  unfold isBoundary
  rw [if_pos (Or.inr rfl)]

/-- No boundary lies outside of a text. -/
theorem range_of_isBoundary {text : Bytes} {position : Int}
    (h : isBoundary text position = true) : 0 ≤ position ∧ position ≤ text.length := by
  unfold isBoundary at h
  split at h
  · omega
  · split at h
    · cases h
    · split at h
      next b hb =>
        have hlt := (List.getElem?_eq_some_iff.1 hb).1
        omega
      next => cases h

/-- The offset of a place between the characters of a text, which is given by its number. -/
def offset (text : List Char) (place : Nat) : Nat := (encode (text.take place)).length

@[simp] theorem offset_length (text : List Char) :
    offset text text.length = (encode text).length := by
  rw [offset, List.take_length]

/-- Further places have greater offsets, by the characters in between. -/
theorem offset_add (text : List Char) (place count : Nat) :
    offset text (place + count)
      = offset text place + (encode ((text.drop place).take count)).length := by
  rw [offset, offset, List.take_add, encode_append, List.length_append]

theorem offset_le_offset (text : List Char) {p q : Nat} (h : p ≤ q) :
    offset text p ≤ offset text q := by
  obtain ⟨count, rfl⟩ := Nat.exists_eq_add_of_le h
  rw [offset_add]
  exact Nat.le_add_right _ _

theorem offset_lt_offset {text : List Char} {p q : Nat} (h : p < q) (hq : q ≤ text.length) :
    offset text p < offset text q := by
  obtain ⟨count, rfl⟩ := Nat.exists_eq_add_of_le (Nat.le_of_lt h)
  have hne : (text.drop p).take count ≠ [] := by
    refine List.ne_nil_of_length_pos ?_
    rw [List.length_take, List.length_drop]
    omega
  have hpos := (length_encode_pos_iff _).2 hne
  rw [offset_add]
  omega

/-- No two places of a text have the same offset. -/
theorem offset_inj {text : List Char} {p q : Nat} (hp : p ≤ text.length) (hq : q ≤ text.length)
    (h : offset text p = offset text q) : p = q := by
  rcases Nat.lt_trichotomy p q with hlt | heq | hgt
  · have := offset_lt_offset hlt hq
    omega
  · exact heq
  · have := offset_lt_offset hgt hp
    omega

/-- An offset in an encoded text is that of a place between characters, or lies inside one. -/
theorem exists_place (text : List Char) {n : Nat} (h : n ≤ (encode text).length) :
    (∃ place, place ≤ text.length ∧ n = offset text place) ∨
      ∃ before c after i, text = before ++ c :: after ∧ n = (encode before).length + i ∧ 0 < i ∧
        i < (encodeCode c.toNat).length := by
  induction text generalizing n with
  | nil => exact Or.inl ⟨0, Nat.le_refl _, Nat.le_zero.1 h⟩
  | cons c text ih =>
    rw [encode_cons, List.length_append] at h
    -- the offset is at the first character or in it, or counts from its end in the rest
    rcases Nat.lt_or_ge n (encodeCode c.toNat).length with hlt | hge
    · rcases Nat.eq_zero_or_pos n with rfl | hpos
      · exact Or.inl ⟨0, Nat.zero_le _, rfl⟩
      · exact Or.inr ⟨[], c, text, n, rfl, (Nat.zero_add n).symm, hpos, hlt⟩
    · have hrest : n - (encodeCode c.toNat).length ≤ (encode text).length := by omega
      rcases ih hrest with ⟨place, hplace, hn⟩ | ⟨before, d, after, i, rfl, hn, hpos, hlt⟩
      · refine Or.inl ⟨place + 1, Nat.succ_le_succ hplace, ?_⟩
        rw [offset, List.take_succ_cons, encode_cons, List.length_append]
        rw [offset] at hn
        omega
      · refine Or.inr ⟨c :: before, d, after, i, rfl, ?_, hpos, hlt⟩
        rw [encode_cons, List.length_append]
        omega

/-- In front of a character there is a boundary, whatever stands behind the text. -/
theorem isBoundary_offset {text : List Char} {place : Nat} (h : place < text.length)
    (behind : Bytes) : isBoundary (encode text ++ behind) (offset text place) = true := by
  have htext : encode text ++ behind = encode (text.take place)
      ++ (encodeCode text[place].toNat ++ (encode (text.drop (place + 1)) ++ behind)) := by
    rw [← List.append_assoc (encodeCode _), ← encode_cons, ← List.drop_eq_getElem_cons h,
      ← List.append_assoc, ← encode_append, List.take_append_drop]
  rw [offset, htext]
  exact isBoundary_lead _ _ _

/-- **The boundaries of an encoded text are the places between its characters.** -/
theorem isBoundary_encode_iff (text : List Char) (position : Int) :
    isBoundary (encode text) position = true ↔
      ∃ place, place ≤ text.length ∧ position = offset text place := by
  constructor
  · intro h
    obtain ⟨hnonneg, hle⟩ := range_of_isBoundary h
    obtain ⟨n, rfl⟩ := Int.eq_ofNat_of_zero_le hnonneg
    rcases exists_place text (n := n) (by omega) with ⟨place, hplace, rfl⟩ | hinside
    · exact ⟨place, hplace, rfl⟩
    · obtain ⟨before, c, after, i, rfl, rfl, hpos, hlt⟩ := hinside
      have := isBoundary_inside c (encode before) (encode after) hpos hlt
      rw [encode_append, encode_cons, this] at h
      cases h
  · rintro ⟨place, hplace, rfl⟩
    rcases Nat.eq_or_lt_of_le hplace with rfl | hlt
    · rw [offset_length]
      exact isBoundary_length _
    · have := isBoundary_offset hlt []
      rwa [List.append_nil] at this

end Arith.Utf8
