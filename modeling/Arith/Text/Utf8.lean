import Arith.Text.Span

/-!
# UTF-8 (RFC 3629), one character at a time

`decodeHead` reads the character at the front of some bytes, or says what is wrong there and how
many bytes are to blame. `encodeCode` writes a code point.

## Three readings of a whole text

* `strictFrom` stops at the first malformed sequence.
* `lenientFrom` puts one U+FFFD for every byte at which no character starts, and goes on.
* `decodeLossy` puts one U+FFFD for every longest malformed beginning of a character.

A text that holds no malformed sequence is read alike by all three.

## Termination

Every reading goes on behind the first byte, so the bytes that are left become fewer.
-/

namespace Arith

/-- What is wrong with the bytes at the front of a text, where a character should stand. -/
inductive Malformed where
  /-- No character starts with this byte. -/
  | badLead (byte : UInt8)
  /-- The text ends inside the character; so many bytes of it are there. -/
  | truncated (available : Nat)
  /-- The byte at this place of the character cannot continue it. -/
  | badContinuation (place : Nat) (byte : UInt8)
  deriving DecidableEq, Repr

namespace Utf8

/-! ## Bytes of a character -/

/-- Continuation bytes are never the first byte of a character. -/
def isContinuation (b : UInt8) : Bool := 0x80 ≤ b && b ≤ 0xBF

/--
The length of the character that a byte starts, or 0 if none starts with it: continuation bytes,
the leads `C0` and `C1` of overlong forms, and leads past U+10FFFF.
-/
def sequenceWidth (lead : UInt8) : Nat :=
  if lead < 0x80 then 1
  else if lead < 0xC2 then 0
  else if lead < 0xE0 then 2
  else if lead < 0xF0 then 3
  else if lead < 0xF5 then 4
  else 0

/--
The least and the greatest second byte after a lead. Four leads narrow it: `E0` and `F0` shut out
overlong forms, `ED` surrogates and `F4` what lies past U+10FFFF.
-/
def secondRange (lead : UInt8) : UInt8 × UInt8 :=
  if lead = 0xE0 then (0xA0, 0xBF)
  else if lead = 0xED then (0x80, 0x9F)
  else if lead = 0xF0 then (0x90, 0xBF)
  else if lead = 0xF4 then (0x80, 0x8F)
  else (0x80, 0xBF)

/-- The bits of the code point that a lead of a longer character carries. -/
def leadBits (width : Nat) (lead : UInt8) : Nat :=
  match width with
  | 2 => lead.toNat % 0x20
  | 3 => lead.toNat % 0x10
  | _ => lead.toNat % 0x08

/-- Adds the bits of the continuation bytes to a code point, as long as they lie in their range. -/
def continueCode (range : UInt8 × UInt8) (code place : Nat) : Bytes → Except Malformed Nat
  | [] => .ok code
  | b :: rest =>
    if range.1 ≤ b ∧ b ≤ range.2 then
      continueCode (0x80, 0xBF) (code * 0x40 + b.toNat % 0x40) (place + 1) rest
    else
      .error (.badContinuation place b)

/-- The character that starts with a lead byte, and its length in bytes. -/
def decodeHead (lead : UInt8) (rest : Bytes) : Except Malformed (Char × Nat) :=
  match sequenceWidth lead with
  | 0 => .error (.badLead lead)
  | 1 => .ok (Char.ofNat lead.toNat, 1)
  | width@(more + 1) =>
    let continuation := rest.take more
    if continuation.length < more then
      .error (.truncated (1 + continuation.length))
    else
      (continueCode (secondRange lead) (leadBits width lead) 1 continuation).map
        fun code => (Char.ofNat code, width)

/-- The length of the beginning of `rest` that can continue a character. -/
def continuationLength (range : UInt8 × UInt8) : Bytes → Nat
  | [] => 0
  | b :: rest =>
    if range.1 ≤ b ∧ b ≤ range.2 then 1 + continuationLength (0x80, 0xBF) rest else 0

/--
The number of bytes of the longest beginning of a character at the front of a text, at least one.
-/
def maximalPart (lead : UInt8) (rest : Bytes) : Nat :=
  1 + continuationLength (secondRange lead) (rest.take (sequenceWidth lead - 1))

/-! ## Readings of a text -/

/-- What is left behind the first byte is less than the text. -/
theorem length_drop_lt (n : Nat) (lead : UInt8) (rest : Bytes) :
    (rest.drop n).length < (lead :: rest).length :=
  Nat.lt_succ_of_le (by rw [List.length_drop]; exact Nat.sub_le _ _)

/-- The replacement character U+FFFD. -/
def replacement : Char := '\uFFFD'

/--
The characters of a text with their offsets, up to the first malformed sequence, which is given
with its offset.
-/
def strictFrom (offset : Nat) : Bytes → List (Nat × Char) × Option (Nat × Malformed)
  | [] => ([], none)
  | lead :: rest =>
    match decodeHead lead rest with
    | .error m => ([], some (offset, m))
    | .ok (c, width) =>
      let (chars, fault) := strictFrom (offset + width) (rest.drop (width - 1))
      ((offset, c) :: chars, fault)
termination_by bytes => bytes.length
decreasing_by exact length_drop_lt ..

/-- The characters of a text with their offsets; a byte at which none starts stands for U+FFFD. -/
def lenientFrom (offset : Nat) : Bytes → List (Nat × Char)
  | [] => []
  | lead :: rest =>
    match decodeHead lead rest with
    | .error _ => (offset, replacement) :: lenientFrom (offset + 1) rest
    | .ok (c, width) => (offset, c) :: lenientFrom (offset + width) (rest.drop (width - 1))
termination_by bytes => bytes.length
decreasing_by
  · exact Nat.lt_succ_self _
  · exact length_drop_lt ..

/-- The characters of a text that holds no malformed sequence. -/
def decode? : Bytes → Option (List Char)
  | [] => some []
  | lead :: rest =>
    match decodeHead lead rest with
    | .error _ => none
    | .ok (c, width) => (decode? (rest.drop (width - 1))).map (c :: ·)
termination_by bytes => bytes.length
decreasing_by exact length_drop_lt ..

/--
The characters of a text, with one U+FFFD for every longest malformed beginning of a character.
-/
def decodeLossy : Bytes → List Char
  | [] => []
  | lead :: rest =>
    match decodeHead lead rest with
    | .error _ => replacement :: decodeLossy (rest.drop (maximalPart lead rest - 1))
    | .ok (c, width) => c :: decodeLossy (rest.drop (width - 1))
termination_by bytes => bytes.length
decreasing_by all_goals exact length_drop_lt ..

/--
Whether an offset stands between two characters, judged by the byte at it alone. The two ends of a
text are such offsets, and what lies outside is none.
-/
def isBoundary (text : Bytes) (offset : Int) : Bool :=
  if offset = 0 ∨ offset = text.length then true
  else if offset < 0 then false
  else match text[offset.toNat]? with
    | some b => !isContinuation b
    | none => false

/-! ## Writing -/

/--
The bytes of a code point. A surrogate is written in the pattern of its size, which no reading
accepts.
-/
def encodeCode (code : Nat) : Bytes :=
  let byte (n : Nat) := UInt8.ofNat n
  let continuation (n : Nat) := UInt8.ofNat (0x80 + n % 0x40)
  if code < 0x80 then [byte code]
  else if code < 0x800 then [byte (0xC0 + code / 0x40), continuation code]
  else if code < 0x10000 then
    [byte (0xE0 + code / 0x1000), continuation (code / 0x40), continuation code]
  else
    [byte (0xF0 + code / 0x40000), continuation (code / 0x1000), continuation (code / 0x40),
      continuation code]

/-- The bytes of a text of code points, surrogates included. -/
def encodeCodes (codes : List Nat) : Bytes := codes.flatMap encodeCode

/-- The bytes of a text of characters. -/
def encode (text : List Char) : Bytes := text.flatMap fun c => encodeCode c.toNat

/-! ## First facts -/

theorem continueCode_cons_of_mem {range : UInt8 × UInt8} {b : UInt8} (h : range.1 ≤ b ∧ b ≤ range.2)
    (code place : Nat) (rest : Bytes) :
    continueCode range code place (b :: rest)
      = continueCode (0x80, 0xBF) (code * 0x40 + b.toNat % 0x40) (place + 1) rest := by
  simp [continueCode, h]

/-- A character that was read is as long as its lead byte says. -/
theorem width_of_decodeHead {lead : UInt8} {rest : Bytes} {c : Char} {width : Nat}
    (h : decodeHead lead rest = .ok (c, width)) : width = sequenceWidth lead ∧ 0 < width := by
  unfold decodeHead at h
  split at h
  · cases h
  next hw => cases h; exact ⟨hw.symm, Nat.one_pos⟩
  next more _ hw =>
    dsimp only at h
    split at h
    · cases h
    · generalize continueCode _ _ _ _ = r at h
      cases r with
      | error e => cases h
      | ok code => cases h; exact ⟨hw.symm, Nat.succ_pos _⟩

/-- A character that was read lies inside the text. -/
theorem width_le_of_decodeHead {lead : UInt8} {rest : Bytes} {c : Char} {width : Nat}
    (h : decodeHead lead rest = .ok (c, width)) : width ≤ (lead :: rest).length := by
  unfold decodeHead at h
  split at h
  · cases h
  · cases h; simp
  next more _ hw =>
    dsimp only at h
    split at h
    · cases h
    next hl =>
      generalize continueCode _ _ _ _ = r at h
      cases r with
      | error e => cases h
      | ok code => cases h; simp at hl ⊢; omega

/-- No character starts with a continuation byte. -/
theorem sequenceWidth_eq_zero {b : UInt8} (h : isContinuation b = true) : sequenceWidth b = 0 := by
  simp only [isContinuation, Bool.and_eq_true, decide_eq_true_eq, UInt8.le_iff_toNat_le] at h
  simp only [sequenceWidth, UInt8.lt_iff_toNat_lt]
  have : (0x80 : UInt8).toNat = 0x80 := rfl
  have : (0xBF : UInt8).toNat = 0xBF := rfl
  have : (0xC2 : UInt8).toNat = 0xC2 := rfl
  rw [if_neg (by omega), if_pos (by omega)]

/-- Where a character was read, its first byte is no continuation byte. -/
theorem isContinuation_of_decodeHead {lead : UInt8} {rest : Bytes} {found : Char × Nat}
    (h : decodeHead lead rest = .ok found) : isContinuation lead = false := by
  cases hc : isContinuation lead with
  | false => rfl
  | true =>
    unfold decodeHead at h
    rw [sequenceWidth_eq_zero hc] at h
    cases h

theorem width_pos_of_decodeHead {lead : UInt8} {rest : Bytes} {c : Char} {width : Nat}
    (h : decodeHead lead rest = .ok (c, width)) : 0 < width :=
  (width_of_decodeHead h).2

@[simp] theorem decode?_nil : decode? [] = some [] := by
  unfold decode?; rfl

@[simp] theorem decodeLossy_nil : decodeLossy [] = [] := by
  unfold decodeLossy; rfl

@[simp] theorem encode_nil : encode [] = [] := rfl

@[simp] theorem encode_cons (c : Char) (text : List Char) :
    encode (c :: text) = encodeCode c.toNat ++ encode text := rfl

theorem encode_append (s t : List Char) : encode (s ++ t) = encode s ++ encode t := by
  simp [encode]

end Utf8

end Arith
