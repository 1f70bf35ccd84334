import Arith.Token.Lexer

/-!
# Kinds of errors

Every error about a source text is of a kind, and every kind but the general one is a special case
of another (`parent?`): text errors, errors of the token stream, and errors of the parser.
-/

namespace Arith

/-- The kinds of errors about a source text. -/
inductive ErrorKind where
  | general
  | text
  | invalidText
  | endOfText
  | token
  | numberRange
  | parse
  | unexpectedEnd
  | unexpectedToken
  deriving DecidableEq, Repr

namespace ErrorKind

/-- The kind that a kind is a special case of. -/
def parent? : ErrorKind → Option ErrorKind
  | general => none
  | text => some general
  | invalidText => some text
  | endOfText => some text
  | token => some general
  | numberRange => some token
  | parse => some general
  | unexpectedEnd => some parse
  | unexpectedToken => some parse

/-- How many steps a kind is below the general one. -/
def depth : ErrorKind → Nat
  | general => 0
  | text | token | parse => 1
  | _ => 2

theorem depth_lt_of_parent? {k p : ErrorKind} (h : k.parent? = some p) : p.depth < k.depth := by
  cases k <;> cases h <;> decide

/-- A kind and all that it is a special case of, from the kind itself to the general one. -/
def lineage (k : ErrorKind) : List ErrorKind :=
  match _h : k.parent? with
  | none => [k]
  | some p => k :: lineage p
termination_by k.depth
decreasing_by exact depth_lt_of_parent? _h

/-- Whether a kind is another one or a special case of it. -/
def isA (k other : ErrorKind) : Bool := k.lineage.contains other

end ErrorKind

def TextFault.kind : TextFault → ErrorKind
  | endOfText => .endOfText
  | malformed _ => .invalidText

def TextError.kind (e : TextError) : ErrorKind := e.fault.kind

def TokenError.kind : TokenError → ErrorKind
  | text _ => .token
  | outOfRange .. => .numberRange

/-- The text error that a token error comes from. -/
def TokenError.cause? : TokenError → Option TextError
  | text e => some e
  | outOfRange .. => none

end Arith
