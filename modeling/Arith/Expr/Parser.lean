import Arith.ErrorKind
import Arith.Expr

/-!
# Parsing by precedence climbing

The parser looks one token ahead. The first token is pulled when the parser is built, and the next
one whenever a token is consumed. A token error that turns up while pulling is held, and becomes a
parse error when the parser needs that token.

`climb left bar` folds the operators that bind at least as tight as `bar` into `left`: behind every
operator it reads an operand, lets the tighter operators take that operand first, and goes on with
the result as the new left side.

## Termination

Every operator that is consumed takes a token from those that are left (`Parser.size`). `climb`
calls itself on what its first call leaves, so it returns with the knowledge that this is no more
than there was before.
-/

namespace Arith

/-! ## Errors -/

/-- What an error of the parser is about. -/
inductive ParseError where
  /-- A token error stands where a token was needed. -/
  | token (e : TokenError)
  /-- The text ends where an expression was needed. -/
  | unexpectedEnd (offset : Nat)
  /-- A token that begins no expression stands where one was needed. -/
  | notAnExpression (t : Token)
  /-- A token is left over behind the expression. -/
  | leftOver (t : Token)
  deriving DecidableEq, Repr

/-- A token as messages show it. -/
def Lexeme.describe : Lexeme → String
  | unknown => "unrecognized character"
  | number n => s!"number {String.ofList (Numeral.write n)}"
  | identifier name => s!"identifier '{name}'"
  | keyword k => s!"keyword '{k.spelling}'"
  | symbol s => s!"'{s.char}'"

namespace ParseError

def message : ParseError → String
  | token e => e.message
  | unexpectedEnd _ => "unexpected end of input, expected an expression"
  | notAnExpression t => s!"expected an expression, found {t.lexeme.describe}"
  | leftOver t => s!"unexpected {t.lexeme.describe} after expression"

def span : ParseError → Span
  | token e => e.span
  | unexpectedEnd offset => Span.point offset
  | notAnExpression t => t.span
  | leftOver t => t.span

def kind : ParseError → ErrorKind
  | token _ => .parse
  | unexpectedEnd _ => .unexpectedEnd
  | notAnExpression _ => .unexpectedToken
  | leftOver _ => .unexpectedToken

/-- The token error that a parse error comes from. -/
def cause? : ParseError → Option TokenError
  | token e => some e
  | _ => none

end ParseError

/-! ## The state of a parser -/

/-- What a parser sees ahead. -/
inductive Lookahead where
  | token (t : Token)
  | finished
  | held (e : TokenError)
  deriving DecidableEq, Repr

/--
A parser: what the pulls of its stream of tokens will bring, what it sees ahead, where the last
token that it consumed ends, and how often it has pulled.
-/
structure Parser where
  stream : List Pull
  lookahead : Lookahead := .finished
  lastEnd : Nat := 0
  pulled : Nat := 0
  deriving DecidableEq, Repr

namespace Parser

/-- Why a step of a parser fails. -/
inductive Failure where
  | error (e : ParseError)
  /-- A pull failed without a token error. -/
  | fault (f : LexFault)
  deriving DecidableEq, Repr

/-- A step of a parser. -/
abbrev Step := EStateM Failure Parser

/-- The number of tokens that a parser can still consume, at most. -/
def size (p : Parser) : Nat :=
  p.stream.length + match p.lookahead with
    | .token _ => 1
    | _ => 0

/--
Pulls the next token. A pull that fails without a token error leaves what the parser saw ahead.
-/
def pull : EStateM LexFault Parser Unit := fun p =>
  let p := { p with pulled := p.pulled + 1 }
  match p.stream with
  | [] => .ok () { p with lookahead := .finished }
  | .token t :: rest => .ok () { p with stream := rest, lookahead := .token t }
  | .finished :: rest => .ok () { p with stream := rest, lookahead := .finished }
  | .error e :: rest => .ok () { p with stream := rest, lookahead := .held e }
  | .fault f :: rest => .error f { p with stream := rest }

/-- The token ahead, if there is one. -/
def peek : Step (Option Token) := fun p =>
  match p.lookahead with
  | .token t => .ok (some t) p
  | .finished => .ok none p
  | .held e => .error (.error (.token e)) p

/-- Consumes a token that was seen ahead. -/
def consume (t : Token) : Step Unit := fun p =>
  match pull { p with lastEnd := t.span.stop } with
  | .ok _ p' => .ok () p'
  | .error f p' => .error (.fault f) p'

/-- Whether no token is left. -/
def atEnd : Step Bool := do return (← peek).isNone

/-- Refuses a token that is left over. -/
def expectEnd : Step Unit := do
  match ← peek with
  | none => return ()
  | some t => throw (.error (.leftOver t))

/-! ## Expressions -/

/-- An operand: a number. -/
def primary : Step Expr := do
  match ← peek with
  | none => throw (.error (.unexpectedEnd (← get).lastEnd))
  | some t =>
    match t.lexeme with
    | .number n =>
      consume t
      return .constant n
    | _ => throw (.error (.notAnExpression t))

/--
The operator ahead that binds at least as tight as `bar`, with the operand behind it. Both are
consumed.
-/
def operation? (bar : Int) : Step (Option (Operator × Expr)) := do
  match ← peek with
  | none => return none
  | some t =>
    match Operator.ofKind? t.lexeme.kind with
    | none => return none
    | some op =>
      if op.precedence < bar then return none
      consume t
      return some (op, ← primary)

/-- The parser that a step leaves behind. -/
def after {ε α : Type} : EStateM.Result ε Parser α → Parser
  | .ok _ p => p
  | .error _ p => p

/-- After a pull, all that can be consumed comes from the stream that was there before. -/
theorem size_pull_le (p : Parser) : (after (pull p)).size ≤ p.stream.length := by
  unfold pull
  dsimp only
  cases hs : p.stream with
  | nil => simp [after, size]
  | cons head rest =>
    cases head with
    | token t => simp [after, size]
    | finished => simp [after, size]
    | error e => simp [after, size]
    | fault f =>
      dsimp only [after, size, List.length_cons]
      split <;> omega

theorem size_consume_le (t : Token) (p : Parser) :
    (after (consume t p)).size ≤ p.stream.length := by
  have h := size_pull_le { p with lastEnd := t.span.stop }
  unfold consume
  cases hp : pull { p with lastEnd := t.span.stop } with
  | ok u p' => rw [hp] at h; exact h
  | error f p' => rw [hp] at h; exact h

theorem stream_length_le_size (p : Parser) : p.stream.length ≤ p.size := Nat.le_add_right _ _

/-- Reading an operand leaves no more to consume than there was. -/
theorem size_primary_le (p : Parser) : (after (primary p)).size ≤ p.size := by
  have consumed (t : Token) (n : Int) :
      (after (EStateM.bind (consume t) (fun _ => EStateM.pure (Expr.constant n)) p)).size
        ≤ p.size := by
    have h := size_consume_le t p
    have := stream_length_le_size p
    unfold EStateM.bind
    cases hc : consume t p with
    | ok u p' => rw [hc] at h; exact Nat.le_trans h this
    | error f p' => rw [hc] at h; exact Nat.le_trans h this
  change (after (EStateM.bind peek _ p)).size ≤ p.size
  unfold EStateM.bind peek
  cases hl : p.lookahead with
  | finished => exact Nat.le_refl _
  | held e => exact Nat.le_refl _
  | token t =>
    dsimp only
    cases t.lexeme with
    | number n => exact consumed t n
    | _ => exact Nat.le_refl _

/--
Where an operator that binds tight enough stands ahead, an operation is that operator and an
operand.
-/
theorem operation?_eq (bar : Int) (p : Parser) :
    operation? bar p = match p.lookahead with
      | .finished => .ok none p
      | .held e => .error (.error (.token e)) p
      | .token t =>
        match Operator.ofKind? t.lexeme.kind with
        | none => .ok none p
        | some op =>
          if op.precedence < bar then .ok none p
          else match consume t p with
            | .error f p1 => .error f p1
            | .ok _ p1 =>
              match primary p1 with
              | .error f p2 => .error f p2
              | .ok operand p2 => .ok (some (op, operand)) p2 := by
  change EStateM.bind peek _ p = _
  unfold EStateM.bind peek
  cases p.lookahead with
  | finished => rfl
  | held e => rfl
  | token t =>
    dsimp only
    cases Operator.ofKind? t.lexeme.kind with
    | none => rfl
    | some op =>
      dsimp only
      by_cases hb : (op.precedence : Int) < bar
      · rw [if_pos hb, if_pos hb]; rfl
      · rw [if_neg hb, if_neg hb]
        change EStateM.bind (consume t) _ p = _
        unfold EStateM.bind
        cases consume t p with
        | error f p1 => rfl
        | ok u p1 =>
          dsimp only
          change EStateM.bind primary _ p1 = _
          unfold EStateM.bind
          cases primary p1 <;> rfl

/-- Reading an operation leaves no more to consume than there was, and less if there is one. -/
theorem size_operation? (bar : Int) (p : Parser) :
    match operation? bar p with
    | .ok (some _) p' => p'.size < p.size
    | .ok none p' => p'.size ≤ p.size
    | .error _ p' => p'.size ≤ p.size := by
  rw [operation?_eq]
  cases hl : p.lookahead with
  | finished => exact Nat.le_refl _
  | held e => exact Nat.le_refl _
  | token t =>
    have hsize : p.size = p.stream.length + 1 := by simp [size, hl]
    dsimp only
    cases Operator.ofKind? t.lexeme.kind with
    | none => exact Nat.le_refl _
    | some op =>
      dsimp only
      by_cases hb : (op.precedence : Int) < bar
      · simp [hb]
      · rw [if_neg hb]
        have h1 := size_consume_le t p
        cases hc : consume t p with
        | error f p1 => rw [hc] at h1; simp only [after] at h1 ⊢; omega
        | ok u p1 =>
          rw [hc] at h1
          have h2 := size_primary_le p1
          dsimp only [after] at h1 ⊢
          cases ho : primary p1 with
          | error f p2 => rw [ho] at h2; dsimp only [after] at h2 ⊢; omega
          | ok operand p2 => rw [ho] at h2; dsimp only [after] at h2 ⊢; omega

/--
Folds the operators ahead that bind at least as tight as `bar` into a left side. What is left is no
more than there was.
-/
def climbBounded (left : Expr) (bar : Int) (p : Parser) :
    { r : EStateM.Result Failure Parser Expr // (after r).size ≤ p.size } :=
  match h : operation? bar p with
  | .error f p1 => ⟨.error f p1, by have := size_operation? bar p; rwa [h] at this⟩
  | .ok none p1 => ⟨.ok left p1, by have := size_operation? bar p; rwa [h] at this⟩
  | .ok (some (op, operand)) p1 =>
    have h1 : p1.size < p.size := by have := size_operation? bar p; rwa [h] at this
    match climbBounded operand (op.precedence + 1) p1 with
    | ⟨.error f p2, h2⟩ => ⟨.error f p2, Nat.le_trans h2 (Nat.le_of_lt h1)⟩
    | ⟨.ok right p2, h2⟩ =>
      have h2 : p2.size < p.size := Nat.lt_of_le_of_lt h2 h1
      let r := climbBounded (.binary op left right) bar p2
      ⟨r.1, Nat.le_trans r.2 (Nat.le_of_lt h2)⟩
termination_by p.size

/-- Folds the operators ahead that bind at least as tight as `bar` into a left side. -/
def climb (left : Expr) (bar : Int) : Step Expr := fun p => (climbBounded left bar p).1

/-- Climbing reads one operation, lets the operators behind it take its operand, and goes on. -/
theorem climb_eq (left : Expr) (bar : Int) (p : Parser) :
    climb left bar p = match operation? bar p with
      | .error f p1 => .error f p1
      | .ok none p1 => .ok left p1
      | .ok (some (op, operand)) p1 =>
        match climb operand (op.precedence + 1) p1 with
        | .error f p2 => .error f p2
        | .ok right p2 => climb (.binary op left right) bar p2 := by
  unfold climb
  rw [climbBounded]
  split
  next h => simp only [h]
  next h => simp only [h]
  next op operand p1 h =>
    simp only [h]
    split
    next h' => simp only [h']
    next h' => simp only [h']

/-- An operand with all operators behind it. -/
def expression : Step Expr := do climb (← primary) 0

/-! ## Whole texts -/

/-- A parser on a stream of tokens, which looks at the first token at once. -/
def start (stream : List Pull) : Except LexFault Parser :=
  match pull { stream } with
  | .ok _ p => .ok p
  | .error f _ => .error f

/-- A parser on a list of tokens. -/
def ofTokens (tokens : List Token) : Parser :=
  after (pull { stream := tokens.map .token })

/-- One expression, with nothing behind it. -/
def whole : Step Expr := do
  let e ← expression
  expectEnd
  return e

end Parser

/-- The expression that a source text is. -/
def Expr.parse (source : Bytes) : Except Parser.Failure Expr :=
  match Parser.start (Lexer.ofBytes source).pulls with
  | .error f => .error (.fault f)
  | .ok p =>
    match Parser.whole p with
    | .ok e _ => .ok e
    | .error f _ => .error f

end Arith
