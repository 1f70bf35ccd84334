import Arith.Text.Hex
import Arith.Text.Utf8

/-!
# Errors about the text itself

A text error says what is wrong with the bytes of a source text and where. `decodeAt` reads the
character at an offset of a text and reports what stands in the way. `readFrom` reads a whole text
with it; at malformed bytes reading either stops or puts U+FFFD for one byte.
-/

namespace Arith

namespace Malformed

/-- The number of bytes that are to blame: all that were looked at. -/
def size : Malformed → Nat
  | badLead _ => 1
  | truncated available => available
  | badContinuation place _ => place + 1

/-- A byte as it is shown in messages. -/
def showByte (b : UInt8) : String :=
  "0x" ++ String.ofList ((Hex.padded 2 b.toNat).map Char.toUpper)

def message : Malformed → String
  | badLead byte => s!"invalid UTF-8 leading byte {showByte byte}"
  | truncated _ => "truncated UTF-8 sequence"
  | badContinuation _ byte => s!"invalid UTF-8 continuation byte {showByte byte}"

end Malformed

/-- Why no character could be read. -/
inductive TextFault where
  /-- The text has ended. -/
  | endOfText
  | malformed (m : Malformed)
  deriving DecidableEq, Repr

namespace TextFault

def message : TextFault → String
  | endOfText => "expected a character, found end of input"
  | malformed m => m.message

end TextFault

/-- A fault of the text, with the bytes that are to blame. -/
structure TextError where
  fault : TextFault
  span : Span
  deriving DecidableEq, Repr

namespace TextError

def message (e : TextError) : String := e.fault.message

/-- The error for a malformed sequence at an offset. -/
def ofMalformed (offset : Nat) (m : Malformed) : TextError :=
  ⟨.malformed m, Span.ofLength offset m.size⟩

/-- The same error in a text that has `count` more bytes in front. -/
def shift (count : Nat) (e : TextError) : TextError := ⟨e.fault, e.span.shift count⟩

end TextError

namespace Utf8

/-- The length of the character that a byte starts; a byte may also be counted back from 256. -/
def widthAt? (index : Int) : Option Nat :=
  if 0 ≤ index ∧ index < 256 then some (sequenceWidth (UInt8.ofNat index.toNat))
  else if -256 ≤ index ∧ index < 0 then some (sequenceWidth (UInt8.ofNat (index + 256).toNat))
  else none

/-- Why reading at an offset failed. -/
inductive DecodeFault where
  | text (e : TextError)
  /-- The offset lies further before the end than the text is long. -/
  | beyondStart
  /-- The bytes to blame begin before the text. -/
  | span (f : SpanFault)
  deriving DecidableEq, Repr

/--
The character at an offset of a text, and its length. A negative offset counts from the end, and a
character that begins there may run on into the beginning of the text.
-/
def decodeAt (text : Bytes) (start : Int) : Except DecodeFault (Char × Nat) :=
  let bytes :=
    if 0 ≤ start then text.drop start.toNat
    else text.drop (text.length - start.natAbs) ++ text
  if start < 0 ∧ text.length < start.natAbs then .error .beyondStart
  else match bytes with
    | [] => .error (.text ⟨.endOfText, Span.point start.toNat⟩)
    | lead :: rest =>
      match decodeHead lead rest with
      | .ok found => .ok found
      | .error m =>
        match Span.ofInts start (start + m.size) with
        | .ok span => .error (.text ⟨.malformed m, span⟩)
        | .error f => .error (.span f)

/-! ## One offset after the other -/

theorem width_pos_of_decodeAt {text : Bytes} {start : Int} {c : Char} {width : Nat}
    (h : decodeAt text start = .ok (c, width)) : 0 < width := by
  unfold decodeAt at h
  dsimp only at h
  split at h
  · cases h
  · split at h
    · cases h
    · split at h
      next found hfound =>
        cases h
        exact width_pos_of_decodeHead hfound
      next => split at h <;> cases h

/--
What is read at an offset, with the number of bytes that it stands for. Malformed bytes may be
replaced one by one.
-/
def readAt (replace : Bool) (text : Bytes) (start : Nat) : Except DecodeFault (Char × Nat) :=
  match decodeAt text start with
  | .ok found => .ok found
  | .error (.text ⟨.malformed m, span⟩) =>
    if replace then .ok (replacement, 1) else .error (.text ⟨.malformed m, span⟩)
  | .error f => .error f

/-- Something is always read off at least one byte. -/
theorem width_pos_of_readAt {replace : Bool} {text : Bytes} {start : Nat} {c : Char} {width : Nat}
    (h : readAt replace text start = .ok (c, width)) : 0 < width := by
  unfold readAt at h
  split at h
  next found hread =>
    cases h
    exact width_pos_of_decodeAt hread
  next m span hread =>
    split at h
    · cases h
      exact Nat.one_pos
    · cases h
  next => cases h

/-- What is read from an offset on, with the offsets, and the fault that reading stops at. -/
def readFrom (replace : Bool) (text : Bytes) (start : Nat) :
    List (Nat × Char) × Option DecodeFault :=
  if start < text.length then
    match _hread : readAt replace text start with
    | .error f => ([], some f)
    | .ok (c, width) =>
      let (chars, fault) := readFrom replace text (start + width)
      ((start, c) :: chars, fault)
  else ([], none)
termination_by text.length - start
decreasing_by
  have := width_pos_of_readAt _hread
  omega

end Utf8

end Arith
