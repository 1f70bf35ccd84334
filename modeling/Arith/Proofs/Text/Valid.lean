import Arith.Proofs.Text.Encoding

/-!
# The valid part of a text

Read from the left, every text is the encoding of some characters with bytes behind it at which no
character stands: the first malformed bytes with all that follows them, or nothing
(`encode_validText_append`). Where these bytes begin is where reading fails first.
-/

namespace Arith.Utf8

/-- The characters in front of the first malformed bytes. -/
def validText (bytes : Bytes) : List Char := (strictFrom 0 bytes).1.map Prod.snd

/-- Where the first malformed bytes begin; the length of the text if there are none. -/
def validLength (bytes : Bytes) : Nat := (strictFrom 0 bytes).2.elim bytes.length Prod.fst

/-- The first malformed bytes, with what follows them. -/
def invalidPart (bytes : Bytes) : Bytes := bytes.drop (validLength bytes)

/-- No character stands at the front of some bytes. -/
def Unreadable (bytes : Bytes) : Prop := frontFault? bytes = none → bytes = []

theorem unreadable_cases {bytes : Bytes} (h : Unreadable bytes) :
    bytes = [] ∨ ∃ m, frontFault? bytes = some m := by
  cases hm : frontFault? bytes with
  | none => exact Or.inl (h hm)
  | some m => exact Or.inr ⟨m, rfl⟩

theorem not_unreadable_encodeCode (c : Char) (rest : Bytes) :
    ¬ Unreadable (encodeCode c.toNat ++ rest) := by
  intro h
  exact encodeCode_append_ne_nil c rest (h (frontFault?_encodeCode c rest))

theorem unreadable_of_frontFault {bytes : Bytes} {m : Malformed}
    (h : frontFault? bytes = some m) : Unreadable bytes := by
  intro hnone
  rw [h] at hnone
  cases hnone

/-- Where no character stands, something is wrong unless nothing is there. -/
theorem Unreadable.frontFault_iff {bytes : Bytes} (h : Unreadable bytes) :
    (∃ m, frontFault? bytes = some m) ↔ 0 < bytes.length := by
  rcases unreadable_cases h with rfl | ⟨m, hm⟩
  · exact ⟨nofun, nofun⟩
  · obtain ⟨lead, rest, rfl, -⟩ := exists_of_frontFault hm
    exact ⟨fun _ => Nat.succ_pos _, fun _ => ⟨m, hm⟩⟩

/-- Behind no characters, and only there, what is wrong with some bytes is wrong at the front. -/
theorem frontFault?_encode_append_iff {text : List Char} {bytes : Bytes} {m : Malformed} :
    frontFault? (encode text ++ bytes) = some m ↔ text = [] ∧ frontFault? bytes = some m := by
  cases text with
  | nil => exact ⟨fun h => ⟨rfl, h⟩, fun h => h.2⟩
  | cons c text =>
    rw [encode_cons, List.append_assoc, frontFault?_encodeCode]
    exact ⟨nofun, fun h => absurd h.1 (List.cons_ne_nil c text)⟩

theorem Unreadable.stops {bytes : Bytes} (h : Unreadable bytes) (test : Char → Bool) :
    Stops test bytes := by
  rcases unreadable_cases h with rfl | ⟨m, hm⟩
  · exact stops_nil test
  · exact stops_of_frontFault hm

/-- A run of characters stops in front of bytes at which no character stands. -/
theorem Unreadable.stops_dropWhile {bytes : Bytes} (h : Unreadable bytes) (test : Char → Bool)
    (text : List Char) : Stops test (encode (text.dropWhile test) ++ bytes) := by
  have hstops := Utf8.stops_dropWhile test text
  cases hrest : text.dropWhile test with
  | nil => exact h.stops test
  | cons c rest =>
    rw [hrest, encode_cons, stops_encodeCode] at hstops
    rw [encode_cons, List.append_assoc, stops_encodeCode]
    exact hstops

/-! ## Splitting a text -/

theorem chars_strictFrom_encodeCode (offset : Nat) (c : Char) (rest : Bytes) :
    (strictFrom offset (encodeCode c.toNat ++ rest)).1
      = (offset, c) :: (strictFrom (offset + (encodeCode c.toNat).length) rest).1 := by
  obtain ⟨lead, tail, he, hdecode⟩ := encodeCode_append c rest
  have hlength := congrArg List.length he
  simp only [List.length_append, List.length_cons] at hlength
  rw [he, strictFrom, hdecode]
  simp only [Nat.add_sub_cancel, List.drop_left]
  rw [show (encodeCode c.toNat).length = tail.length + 1 by omega]

/-- What is read are the characters in front of bytes at which no character stands. -/
theorem strictFrom_split (offset : Nat) (bytes : Bytes) :
    ∃ bad, Unreadable bad ∧ bytes = encode ((strictFrom offset bytes).1.map Prod.snd) ++ bad ∧
      (strictFrom offset bytes).2 = (frontFault? bad).map fun m =>
        (offset + (encode ((strictFrom offset bytes).1.map Prod.snd)).length, m) := by
  induction bytes using front_induction generalizing offset with
  | nil =>
    refine ⟨[], fun _ => rfl, ?_, ?_⟩
    · rw [strictFrom]
      rfl
    · rw [strictFrom]
      rfl
  | malformed lead rest m hdecode ih =>
    have hm : frontFault? (lead :: rest) = some m := by rw [frontFault?, hdecode]
    have hread : strictFrom offset (lead :: rest) = ([], some (offset, m)) := by
      rw [strictFrom, hdecode]
    refine ⟨lead :: rest, unreadable_of_frontFault hm, ?_, ?_⟩
    · rw [hread]
      rfl
    · rw [hread, hm]
      rfl
  | encoded c rest ih =>
    obtain ⟨bad, hbad, hrest, hfault⟩ := ih (offset + (encodeCode c.toNat).length)
    refine ⟨bad, hbad, ?_, ?_⟩
    · rw [chars_strictFrom_encodeCode, List.map_cons, encode_cons, List.append_assoc, ← hrest]
    · rw [strictFrom_encodeCode, hfault, chars_strictFrom_encodeCode, List.map_cons, encode_cons,
        List.length_append, Nat.add_assoc]

/-- **Every text is its valid characters, encoded, and bytes at which no character stands.** -/
theorem encode_validText_append (bytes : Bytes) :
    encode (validText bytes) ++ invalidPart bytes = bytes ∧
      (encode (validText bytes)).length = validLength bytes ∧ Unreadable (invalidPart bytes) := by
  obtain ⟨bad, hbad, hbytes, hfault⟩ := strictFrom_split 0 bytes
  have hlength : (encode (validText bytes)).length = validLength bytes := by
    unfold validLength
    rw [hfault]
    rcases unreadable_cases hbad with rfl | ⟨m, hm⟩
    · rw [List.append_nil] at hbytes
      exact congrArg List.length hbytes.symm
    · rw [hm, Nat.zero_add]
      rfl
  have hrest : invalidPart bytes = bad :=
    calc bytes.drop (validLength bytes)
        = (encode (validText bytes) ++ bad).drop (encode (validText bytes)).length := by
          rw [hlength]
          exact congrArg _ hbytes
      _ = bad := List.drop_left
  exact ⟨by rw [hrest]; exact hbytes.symm, hlength, by rw [hrest]; exact hbad⟩

/-- Bytes are characters in front of bytes at which none stands in one way only. -/
theorem encode_append_unreadable_inj {s t : List Char} {u v : Bytes} (hu : Unreadable u)
    (hv : Unreadable v) (h : encode s ++ u = encode t ++ v) : s = t ∧ u = v := by
  induction s generalizing t with
  | nil =>
    cases t with
    | nil => exact ⟨rfl, h⟩
    | cons d t =>
      rw [encode_nil, List.nil_append, encode_cons, List.append_assoc] at h
      exact absurd (h ▸ hu) (not_unreadable_encodeCode d _)
  | cons c s ih =>
    cases t with
    | nil =>
      rw [encode_nil, List.nil_append, encode_cons, List.append_assoc] at h
      exact absurd (h ▸ hv) (not_unreadable_encodeCode c _)
    | cons d t =>
      rw [encode_cons, encode_cons, List.append_assoc, List.append_assoc] at h
      obtain ⟨rfl, htail⟩ := encodeCode_append_inj h
      obtain ⟨rfl, rfl⟩ := ih htail
      exact ⟨rfl, rfl⟩

/-- The valid part of a text is what stands in front of bytes at which no character stands. -/
theorem validText_encode_append (text : List Char) {bad : Bytes} (hbad : Unreadable bad) :
    validText (encode text ++ bad) = text ∧
      validLength (encode text ++ bad) = (encode text).length := by
  obtain ⟨hbytes, hlength, hrest⟩ := encode_validText_append (encode text ++ bad)
  obtain ⟨htext, -⟩ := encode_append_unreadable_inj hrest hbad hbytes
  rw [← hlength, htext]
  exact ⟨rfl, rfl⟩

end Arith.Utf8
