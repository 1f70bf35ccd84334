import Arith.Document
import Arith.Expr.Parser

/-!
# Diagnostics for editors

A diagnostic tells an editor where a document is wrong. Editors count lines from 0 and, inside a
line, in units of UTF-16: a character of the supplementary planes counts twice. The bytes of a line
before a place are decoded with replacement, so that malformed lines have places too.
-/

namespace Arith

/-- The number of UTF-16 units of a text. -/
def utf16Length (text : List Char) : Nat :=
  text.foldr (fun c n => (if c.toNat < 0x10000 then 1 else 2) + n) 0

/-- A place in a document as editors count: line and UTF-16 unit. -/
structure Position where
  line : Nat
  unit : Nat
  deriving DecidableEq, Repr

namespace Position

/-- The place of an offset of a text with its line index. -/
def ofOffset (content : Bytes) (index : LineIndex) (offset : Nat) : Position :=
  let (line, column) := index.locate offset
  ⟨line, utf16Length (Utf8.decodeLossy ((Document.lineOf content index line).take column))⟩

/-- The place of an offset of a text; a negative offset has none. -/
def ofOffset? (content : Bytes) (index : LineIndex) (offset : Int) :
    Except LineIndex.Fault Position :=
  if offset < 0 then .error (.negativeOffset offset)
  else .ok (ofOffset content index offset.toNat)

end Position

/-- Which part of the front end found the error. -/
inductive DiagnosticCode where
  | lex
  | parse
  deriving DecidableEq, Repr

def DiagnosticCode.label : DiagnosticCode → String
  | lex => "lex"
  | parse => "parse"

/-- The number that editors know an error by, which is the gravest of all diagnostics. -/
def errorSeverity : Nat := 1

/-- The name under which diagnostics are published. -/
def diagnosticSource : String := "whylang"

/-- What an editor is told. -/
structure Diagnostic where
  start : Position
  stop : Position
  message : String
  severity : Nat := errorSeverity
  code : DiagnosticCode
  source : String := diagnosticSource
  deriving DecidableEq, Repr

namespace Diagnostic

/-- The code of an error that comes from an error of another kind, if it does. -/
def codeOf (cause? : Option ErrorKind) : DiagnosticCode :=
  match cause? with
  | some kind => if kind.isA .token then .lex else .parse
  | none => .parse

/-- The diagnostic for an error in a text. -/
def ofError (content : Bytes) (message : String) (span : Span) (cause? : Option ErrorKind) :
    Diagnostic :=
  let index := LineIndex.ofBytes content
  { start := .ofOffset content index span.start
    stop := .ofOffset content index span.stop
    message
    code := codeOf cause? }

/-- The diagnostic for an error in a text; there is none for an error that has no place. -/
def ofError? (content : Bytes) (message : String) (span? : Option Span)
    (cause? : Option ErrorKind) : Option Diagnostic :=
  span?.map fun span => ofError content message span cause?

/-- The diagnostic for a parse error in a text. -/
def ofParseError (content : Bytes) (e : ParseError) : Diagnostic :=
  ofError content e.message e.span (e.cause?.map TokenError.kind)

/--
The diagnostics of a text: none if it is an expression, and one if it is not. A text whose tokens
cannot be read has no diagnostics at all.
-/
def ofBytes (content : Bytes) : Except LexFault (List Diagnostic) :=
  match Expr.parse content with
  | .ok _ => .ok []
  | .error (.error e) => .ok [ofParseError content e]
  | .error (.fault f) => .error f

end Diagnostic

end Arith
