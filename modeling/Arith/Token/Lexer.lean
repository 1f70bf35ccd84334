import Arith.Text.Matcher
import Arith.Token
import Arith.Window.Forward

/-!
# The stream of tokens

A lexer pulls one token at a time off a window. White space before a token is committed first;
then the first character decides what the token is, and the token takes as many characters as fit.
A minus sign directly before a digit belongs to the number.

The value of a number is read off the whole window. A lexer can be given a window that already
holds text, and then that text belongs to the first token.

## How a stream ends

The end of the text and a token error end the stream for good. A numeral that cannot be read at all
and a window that holds malformed bytes are no token errors (`LexFault`): they leave the lexer as
it is, with the characters in the window, and the next pull goes on from there.

## Termination

Every pull that does not end the stream takes a character (`next_progress`), so the text bounds the
number of pulls, and `pulls` lists what they all bring.
-/

namespace Arith

/-! ## Errors -/

/-- An error that ends a stream of tokens. -/
inductive TokenError where
  /-- The text is malformed. -/
  | text (e : TextError)
  /-- A number does not fit in 64 bits. -/
  | outOfRange (literal : List Char) (span : Span)
  deriving DecidableEq, Repr

namespace TokenError

def message : TokenError → String
  | text e => e.message
  | outOfRange literal _ => s!"integer literal {String.ofList literal} does not fit in 64 bits"

def span : TokenError → Span
  | text e => e.span
  | outOfRange _ span => span

/-- The same error in a text that has `count` more bytes in front. -/
def shift (count : Nat) : TokenError → TokenError
  | text e => text (e.shift count)
  | outOfRange literal span => outOfRange literal (span.shift count)

end TokenError

/-- Why a pull fails without ending the stream. -/
inductive LexFault where
  /-- The window was moved to a place that is none. -/
  | window (f : Window.Fault)
  /-- The window holds malformed bytes. -/
  | malformedText
  /-- The window holds no numeral that can be read. -/
  | numeral (f : Numeral.Fault)
  deriving DecidableEq, Repr

/-- What a pull brings. -/
inductive Pull where
  | token (t : Token)
  | finished
  | error (e : TokenError)
  | fault (f : LexFault)
  deriving DecidableEq, Repr

/-- A stream of tokens. -/
structure Lexer where
  window : Window
  exhausted : Bool := false
  deriving Repr

namespace Lexer

/-- The stream of the tokens of a text. -/
def ofBytes (source : Bytes) : Lexer := { window := Window.ofBytes source }

/-! ## One token -/

/-- Why a token could not be read. -/
inductive Failure where
  | error (e : TokenError)
  | fault (f : LexFault)
  deriving DecidableEq, Repr

/-- Malformed text is a token error; no other fault of a window is. -/
def Failure.ofWindowFault : Window.Fault → Failure
  | .text e => error (.text e)
  | f => fault (.window f)

/-- A step on the window of a lexer. -/
abbrev Step := EStateM Failure Window

/-- A step on a window as a step of a lexer. -/
def lift {α : Type} (step : Scan α) : Step α := EStateM.adaptExcept Failure.ofWindowFault step

/-- The least number of 64 bits. -/
def int64Min : Int := -9223372036854775808

/-- The greatest number of 64 bits. -/
def int64Max : Int := 9223372036854775807

/-- Commits white space, if there is any. -/
def skipBlanks : Step Unit := do
  if ← lift (Window.scanWhile isBlank) then lift Window.advance

/-- The token that the window holds. The window is committed. -/
def emit (lexeme : Lexeme) : Step Token := do
  let token : Token := ⟨(← get).span, lexeme⟩
  lift Window.advance
  return token

/-- The characters that the window holds. -/
def heldText : Step (List Char) := do
  match (← get).text? with
  | some text => return text
  | none => throw (.fault .malformedText)

/-- A number whose sign or first digit the window holds already. -/
def number : Step Token := do
  let _ ← lift (Window.scanWhile isDigit)
  let text ← heldText
  match Numeral.read text with
  | .error f => throw (.fault (.numeral f))
  | .ok n =>
    if int64Min ≤ n ∧ n ≤ int64Max then emit (.number n)
    else throw (.error (.outOfRange text (← get).span))

/-- A reserved word or an identifier. -/
def classifyName (text : List Char) : Lexeme :=
  let name := String.ofList text
  match Keyword.ofSpelling? name with
  | some k => .keyword k
  | none => .identifier name

/-- A name whose first character the window holds already. -/
def name : Step Token := do
  let _ ← lift (Window.scanWhile isNameChar)
  emit (classifyName (← heldText))

/-- A token of one character. -/
def classifySingle (c : Char) : Lexeme :=
  match Symbol.ofChar? c with
  | some s => .symbol s
  | none => .unknown

/-- The token that begins with a character, which the window holds already. -/
def tokenFrom (c : Char) : Step Token := do
  if isDigit c || (c == '-' && (← get).peek isDigit) then number
  else if isNameStart c then name
  else emit (classifySingle c)

/-- The next token, if there is one. -/
def scanToken : Step (Option Token) := do
  skipBlanks
  match ← lift Window.take with
  | none => return none
  | some c => some <$> tokenFrom c

/-- Pulls once. -/
def next (l : Lexer) : Pull × Lexer :=
  if l.exhausted then (.finished, l)
  else match scanToken l.window with
    | .ok none w => (.finished, ⟨w, true⟩)
    | .ok (some t) w => (.token t, ⟨w, false⟩)
    | .error (.error e) w => (.error e, ⟨w, true⟩)
    | .error (.fault f) w => (.fault f, ⟨w, false⟩)

/-! ## Progress -/

open Window (Forward after)

theorem forward_lift {α : Type} {step : Scan α} (h : Forward step) : Forward (lift step) :=
  h.adaptExcept _

theorem forward_skipBlanks : Forward skipBlanks :=
  .bind (forward_lift (Window.forward_scanWhile _)) fun moved => by
    cases moved
    · exact .pure _
    · exact forward_lift Window.forward_advance

theorem forward_emit (lexeme : Lexeme) : Forward (emit lexeme) :=
  .bind .get fun _ => .bind (forward_lift Window.forward_advance) fun _ => .pure _

theorem forward_heldText : Forward heldText :=
  .bind .get fun w => by
    cases w.text? with
    | none => exact .throw _
    | some text => exact .pure _

theorem forward_number : Forward number :=
  .bind (forward_lift (Window.forward_scanWhile _)) fun _ =>
    .bind forward_heldText fun text => by
      cases Numeral.read text with
      | error f => exact .throw _
      | ok n =>
        dsimp only
        split
        · exact forward_emit _
        · exact .bind .get fun _ => .throw _

theorem forward_name : Forward name :=
  .bind (forward_lift (Window.forward_scanWhile _)) fun _ =>
    .bind forward_heldText fun _ => forward_emit _

theorem forward_tokenFrom (c : Char) : Forward (tokenFrom c) :=
  .bind .get fun w => by
    split
    · exact forward_number
    · split
      · exact forward_name
      · exact forward_emit _

theorem forward_scanToken : Forward scanToken :=
  .bind forward_skipBlanks fun _ => .bind (forward_lift Window.forward_take) fun found => by
    cases found with
    | none => exact .pure _
    | some c =>
      dsimp only
      rw [map_eq_pure_bind]
      exact .bind (forward_tokenFrom c) fun _ => .pure _

/-- Skipping blanks fails with token errors only. -/
theorem eq_error_of_skipBlanks {w w' : Window} {f : Failure} (h : skipBlanks w = .error f w') :
    ∃ e, f = .error e := by
  change EStateM.bind (lift (Window.scanWhile isBlank)) _ w = _ at h
  unfold EStateM.bind lift EStateM.adaptExcept at h
  cases hs : Window.scanWhile isBlank w with
  | error g w1 =>
    rw [hs] at h
    obtain ⟨m, rfl⟩ := Window.eq_malformedHere_of_scanWhile hs
    cases h
    exact ⟨_, rfl⟩
  | ok moved w1 =>
    rw [hs] at h
    cases moved <;> cases h

/--
A step of the stream: white space is skipped, a character is taken, and the token that begins with
it is read.
-/
theorem scanToken_eq (w : Window) :
    scanToken w = match skipBlanks w with
      | .error f w1 => .error f w1
      | .ok _ w1 =>
        match Window.take w1 with
        | .error f w2 => .error (Failure.ofWindowFault f) w2
        | .ok none w2 => .ok none w2
        | .ok (some c) w2 =>
          match tokenFrom c w2 with
          | .error f w3 => .error f w3
          | .ok t w3 => .ok (some t) w3 := by
  change EStateM.bind skipBlanks _ w = _
  unfold EStateM.bind
  cases skipBlanks w with
  | error f w1 => rfl
  | ok u w1 =>
    dsimp only
    change EStateM.bind (lift Window.take) _ w1 = _
    unfold EStateM.bind lift EStateM.adaptExcept
    cases Window.take w1 with
    | error f w2 => rfl
    | ok found w2 =>
      cases found with
      | none => rfl
      | some c =>
        dsimp only
        change EStateM.map some (tokenFrom c) w2 = _
        unfold EStateM.map
        cases tokenFrom c w2 <;> rfl

/-- A step of the stream that brings a token, or fails without a token error, takes a character. -/
theorem stop_lt_of_scanToken {w : Window} :
    match scanToken w with
    | .ok (some _) w' => w'.source = w.source ∧ w.stop < w'.stop
    | .error (.fault _) w' => w'.source = w.source ∧ w.stop < w'.stop
    | _ => True := by
  rw [scanToken_eq]
  have h1 := forward_skipBlanks w
  cases hs : skipBlanks w with
  | error f w1 => obtain ⟨e, rfl⟩ := eq_error_of_skipBlanks hs; trivial
  | ok u w1 =>
    rw [hs] at h1
    dsimp only
    cases ht : Window.take w1 with
    | error f w2 => obtain ⟨-, m, rfl⟩ := Window.eq_malformedHere_of_take ht; trivial
    | ok found w2 =>
      cases found with
      | none => trivial
      | some c =>
        have h2 := Window.forward_take w1
        rw [ht] at h2
        have hlt := Window.stop_lt_of_take ht
        have h3 := forward_tokenFrom c w2
        dsimp only
        cases hf : tokenFrom c w2 with
        | ok t w3 =>
          rw [hf] at h3
          have := (h1.trans h2).trans h3
          exact ⟨this.source_eq, Nat.lt_of_le_of_lt h1.stop_le (Nat.lt_of_lt_of_le hlt h3.stop_le)⟩
        | error f w3 =>
          rw [hf] at h3
          have := (h1.trans h2).trans h3
          cases f with
          | error e => trivial
          | fault f =>
            exact ⟨this.source_eq,
              Nat.lt_of_le_of_lt h1.stop_le (Nat.lt_of_lt_of_le hlt h3.stop_le)⟩

/-- A pull that does not end the stream takes a character. -/
theorem next_progress {l : Lexer} (h : l.next.2.exhausted = false) :
    l.next.2.window.rest.length < l.window.rest.length := by
  have shorter : ∀ w' : Window, w'.source = l.window.source → l.window.stop < w'.stop →
      w'.rest.length < l.window.rest.length := by
    intro w' hs hlt
    have := w'.inside
    simp only [Window.length_rest]
    rw [hs] at *
    omega
  have hstep := stop_lt_of_scanToken (w := l.window)
  unfold next at h ⊢
  by_cases he : l.exhausted = true
  · rw [if_pos he] at h
    exact absurd (h.symm.trans he) Bool.false_ne_true
  · rw [if_neg he] at h ⊢
    cases hr : scanToken l.window with
    | ok found w =>
      rw [hr] at hstep h
      cases found with
      | none => exact absurd h (by simp)
      | some t => exact shorter w hstep.1 hstep.2
    | error f w =>
      rw [hr] at hstep h
      cases f with
      | error e => exact absurd h (by simp)
      | fault f => exact shorter w hstep.1 hstep.2

/-! ## All pulls -/

/-- What the pulls of a stream bring, up to the one that ends it. -/
def pulls (l : Lexer) : List Pull :=
  if l.next.2.exhausted then [l.next.1] else l.next.1 :: pulls l.next.2
termination_by l.window.rest.length
decreasing_by
  next h => exact next_progress (Bool.eq_false_iff.mpr h)

end Lexer

end Arith
