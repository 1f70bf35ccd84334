import Arith.Text.Decode
import Arith.Text.Quoted

/-!
# Windows: the cursor over a text

A window `[start, stop)` lies over the bytes of a text. Taking characters moves `stop`; `advance`
commits the window, so that the next token starts where this one stopped; `backtrack` moves `stop`
to a position between two characters.

The operations are steps on a window that may fail (`Scan`). A step that fails still leaves a
window behind, mostly the one it began with: a scan keeps the characters that it took before it met
malformed bytes, and `backtrack` has moved `stop` already when it finds that the bytes before it
are malformed.
-/

namespace Arith

/-- A window over a text, with the character that was taken last. It lies inside the text. -/
structure Window where
  source : Bytes
  start : Nat := 0
  stop : Nat := 0
  last : Option Char := none
  ordered : start ≤ stop := by omega
  inside : stop ≤ source.length := by omega
  deriving Repr

namespace Window

/-! ## State -/

/-- A window at the beginning of a text. -/
def ofBytes (source : Bytes) : Window := { source }

/-- The bytes that were not taken yet. -/
def rest (w : Window) : Bytes := w.source.drop w.stop

/-- Whether all bytes were taken. -/
def atEnd (w : Window) : Bool := w.rest.isEmpty

/-- The bytes inside a window. -/
def bytes (w : Window) : Bytes := (w.source.take w.stop).drop w.start

/-- The characters inside a window, unless its bytes are malformed. -/
def text? (w : Window) : Option (List Char) := Utf8.decode? w.bytes

/-- The bounds of a window. -/
def span (w : Window) : Span := ⟨w.start, w.stop, w.ordered⟩

/-- A window as it is shown: the bytes inside it and its bounds. -/
def describe (w : Window) : String :=
  s!"TextWindow({String.ofList (Quoted.ofBytes w.bytes)}, {w.start}..{w.stop})"

theorem length_rest (w : Window) : w.rest.length = w.source.length - w.stop := by
  simp [rest]

theorem atEnd_iff (w : Window) : w.atEnd = true ↔ w.stop = w.source.length := by
  have := w.inside
  simp only [atEnd, List.isEmpty_iff, rest, List.drop_eq_nil_iff]
  omega

/-- Why a step on a window fails. -/
inductive Fault where
  /-- The bytes at the place of a character are malformed. -/
  | text (e : TextError)
  /-- A position before the window or behind the text. -/
  | outside (position : Int) (low high : Nat)
  /-- A position inside a character. -/
  | insideCharacter (position : Int)
  deriving DecidableEq, Repr

namespace Fault

def message : Fault → String
  | text e => e.message
  | outside position low high =>
    s!"backtrack position {position} is outside the window [{low}, {high}]"
  | insideCharacter position => s!"backtrack position {position} is not a character boundary"

end Fault

end Window

/-- A step on a window. -/
abbrev Scan := EStateM Window.Fault Window

namespace Window

/-! ## Taking characters -/

/-- What stands behind a window. -/
inductive Ahead (w : Window) where
  | nothing
  | malformed (m : Malformed)
  | character (c : Char) (width : Nat) (fits : w.stop + width ≤ w.source.length)

/-- Reads what stands behind a window. -/
def ahead (w : Window) : Ahead w :=
  match atRest : w.rest with
  | [] => .nothing
  | lead :: rest =>
    match found : Utf8.decodeHead lead rest with
    | .error m => .malformed m
    | .ok (c, width) => .character c width (by
        have h := Utf8.width_le_of_decodeHead found
        rw [← atRest, length_rest] at h
        have := w.inside
        omega)

/-- Takes a character whose length is known. -/
def push (w : Window) (c : Char) (width : Nat) (fits : w.stop + width ≤ w.source.length) : Window :=
  { w with
    stop := w.stop + width
    last := some c
    ordered := Nat.le_add_right_of_le w.ordered
    inside := fits }

/-- The error for malformed bytes behind a window. -/
def malformedHere (w : Window) (m : Malformed) : Fault := .text (TextError.ofMalformed w.stop m)

/--
Takes the next character, if there is one. At the end of the text the last character is forgotten.
-/
def take : Scan (Option Char) := fun w =>
  match w.ahead with
  | .nothing => .ok none { w with last := none }
  | .malformed m => .error (w.malformedHere m) w
  | .character c width fits => .ok (some c) (w.push c width fits)

/-- Takes the next character if it passes a test, and says whether it did. -/
def takeIf (test : Char → Bool) : Scan Bool := fun w =>
  match w.ahead with
  | .nothing => .ok false w
  | .malformed m => .error (w.malformedHere m) w
  | .character c width fits =>
    if test c then .ok true (w.push c width fits) else .ok false w

/-- Whether there is a next character and it passes a test. -/
def peek (test : Char → Bool) (w : Window) : Bool :=
  match w.ahead with
  | .character c _ _ => test c
  | _ => false

/-! ## Moving back and committing -/

/--
Goes back from an offset to one where a character can begin, but not further than to `low`.
-/
def characterStart (text : Bytes) (low : Nat) : Nat → Nat
  | 0 => 0
  | offset + 1 =>
    if low < offset + 1 ∧ !Utf8.isBoundary text (offset + 1 : Nat) then
      characterStart text low offset
    else offset + 1

/-- The last character inside a window, read backwards from its end. -/
def lastCharacter (w : Window) : Except TextError (Option Char) :=
  if w.stop = w.start then .ok none
  else
    let offset := characterStart w.source w.start (w.stop - 1)
    match w.source.drop offset with
    | [] => .ok none
    | lead :: rest =>
      match Utf8.decodeHead lead rest with
      | .error m => .error (TextError.ofMalformed offset m)
      | .ok (c, _) => .ok (some c)

/--
Moves the end of the window to a position between two characters, which must not lie before the
window or behind the text. The last character is then the one before that position.
-/
def backtrack (position : Int) : Scan Unit := fun w =>
  if _outside : position < w.start ∨ w.source.length < position then
    .error (.outside position w.start w.source.length) w
  else if !Utf8.isBoundary w.source position then .error (.insideCharacter position) w
  else if position = w.stop then .ok () w
  else
    let moved := { w with stop := position.toNat, ordered := by omega, inside := by omega }
    match moved.lastCharacter with
    | .error e => .error (.text e) moved
    | .ok last => .ok () { moved with last }

/-- Commits the window: the next one begins where this one stops. -/
def advance : Scan Unit := fun w =>
  .ok () { w with start := w.stop, last := none, ordered := Nat.le_refl _ }

/-! ## Scanning -/

/--
The longest run of characters that pass a test, and what is wrong with the bytes behind it, if
anything.
-/
structure Run where
  chars : List Char := []
  width : Nat := 0
  fault : Option Malformed := none
  deriving DecidableEq, Repr

/-- The run of characters that pass a test at the front of a text. -/
def runOf (test : Char → Bool) : Bytes → Run
  | [] => {}
  | lead :: rest =>
    match Utf8.decodeHead lead rest with
    | .error m => { fault := some m }
    | .ok (c, width) =>
      if test c then
        let behind := runOf test (rest.drop (width - 1))
        { behind with chars := c :: behind.chars, width := width + behind.width }
      else {}
termination_by text => text.length
decreasing_by exact Utf8.length_drop_lt ..

/-- A run lies inside the text. -/
theorem width_runOf_le (test : Char → Bool) (text : Bytes) :
    (runOf test text).width ≤ text.length := by
  fun_induction runOf test text with
  | case1 => simp
  | case2 => simp
  | case3 lead rest c width found _ behind ih =>
    have h := Utf8.width_le_of_decodeHead found
    have := Utf8.width_pos_of_decodeHead found
    have ih' : behind.width ≤ rest.length - (width - 1) := by simpa using ih
    simp only [List.length_cons] at h ⊢
    omega
  | case4 => simp

/-- Takes the run of characters that pass a test. -/
def takeRun (test : Char → Bool) : Scan Unit := fun w =>
  let run := runOf test w.rest
  let moved := { w with
    stop := w.stop + run.width
    last := run.chars.getLast?.or w.last
    ordered := Nat.le_add_right_of_le w.ordered
    inside := by
      have h : run.width ≤ w.rest.length := width_runOf_le test w.rest
      have := w.inside
      rw [length_rest] at h
      omega }
  match run.fault with
  | some m => .error (moved.malformedHere m) moved
  | none => .ok () moved

/-- Takes characters as long as they pass a test, and says whether there were any. -/
def scanWhile (test : Char → Bool) : Scan Bool := do
  let before := (← get).stop
  takeRun test
  let reached := (← get).stop
  backtrack reached
  return decide (before < reached)

/-- Takes characters until one passes a test, and says whether there were any. -/
def scanUntil (test : Char → Bool) : Scan Bool := scanWhile fun c => !test c

end Window

end Arith
