import Arith.Token.Lexer

/-!
# Token listings

A listing has one line for every token: its kind in a column of ten characters, its span, its text
in quotes, and its value if it carries one. A listing ends where the stream of tokens does; what
was listed before an error is part of it.
-/

namespace Arith

/-- Why a listing ends before the text does. -/
inductive ListingFault where
  | error (e : TokenError)
  | fault (f : LexFault)
  /-- The text of a token is malformed. -/
  | malformedText
  deriving DecidableEq, Repr

namespace Token

/-- The name of a kind, filled up to ten characters. -/
def kindColumn (label : String) : List Char :=
  label.toList ++ List.replicate (10 - label.length) ' '

/-- The value of a token as a listing shows it, behind a blank. -/
def valueColumn : Lexeme → List Char
  | .unknown => []
  | .number n => ' ' :: Numeral.write n
  | .identifier name => ' ' :: Quoted.ofText name.toList
  | .keyword k => ' ' :: k.label.toList
  | .symbol _ => []

/-- The line of a token with a text. -/
def listingLine (t : Token) (text : List Char) : List Char :=
  kindColumn t.lexeme.kind.label ++ [' '] ++ Numeral.writeNat t.span.start ++ ['.', '.']
    ++ Numeral.writeNat t.span.stop ++ [' '] ++ Quoted.ofText text ++ valueColumn t.lexeme ++ ['\n']

end Token

/-- The lines for what a stream of tokens brings, and why they end too early, if they do. -/
def listPulls (source : Bytes) : List Pull → List Char × Option ListingFault
  | [] => ([], none)
  | .finished :: _ => ([], none)
  | .error e :: _ => ([], some (.error e))
  | .fault f :: _ => ([], some (.fault f))
  | .token t :: rest =>
    match t.text? source with
    | none => ([], some .malformedText)
    | some text =>
      let (lines, fault) := listPulls source rest
      (t.listingLine text ++ lines, fault)

/-- The listing of the tokens of a text. -/
def listTokens (source : Bytes) : List Char × Option ListingFault :=
  listPulls source (Lexer.ofBytes source).pulls

end Arith
