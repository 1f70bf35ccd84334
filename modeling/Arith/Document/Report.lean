import Arith.Document
import Arith.Text.Numeral
import Arith.Text.Span

/-!
# Reports

A report shows an error with the line of the source text that it is about, and underlines the
characters that its span covers. Places are counted in bytes, columns in characters: the bytes of
the line before the span are decoded on their own, and so are those inside it.

A span that goes on behind its first line is underlined to the end of that line, and an empty span
has one mark.
-/

namespace Arith.Report

/-- The number of characters that bytes are shown as. -/
def shownLength (bytes : Bytes) : Nat := (Utf8.decodeLossy bytes).length

/-- Where a report puts its marks. -/
structure Marks where
  /-- The line, counted from 0. -/
  line : Nat
  /-- The characters of the line. -/
  text : List Char
  /-- The number of characters before the marks. -/
  column : Nat
  /-- The number of marks, at least one. -/
  width : Nat
  deriving DecidableEq, Repr

/-- The marks for a span of a text with its line index. -/
def marks (content : Bytes) (index : LineIndex) (span : Span) : Marks :=
  let (line, column) := index.locate span.start
  let (stopLine, stopColumn) := index.locate span.stop
  let raw := Document.lineOf content index line
  let text := Utf8.decodeLossy raw
  let before := shownLength (raw.take column)
  let width :=
    if stopLine = line then shownLength ((raw.take stopColumn).drop column)
    else text.length - before
  { line, text, column := before, width := max 1 width }

/-- The lines of a report for marks in a document of a name. -/
def renderMarks (message name : String) (m : Marks) : List Char :=
  let number := Numeral.writeNat (m.line + 1)
  let gutter := List.replicate (number.length + 1) ' '
  let bar := gutter ++ ['|']
  "error: ".toList ++ message.toList ++ ['\n']
    ++ gutter ++ "--> ".toList ++ name.toList ++ [':'] ++ number ++ [':']
    ++ Numeral.writeNat (m.column + 1) ++ ['\n']
    ++ bar ++ ['\n']
    ++ number ++ " | ".toList ++ m.text ++ ['\n']
    ++ bar ++ [' '] ++ List.replicate m.column ' ' ++ List.replicate m.width '^'

/-- A report with no place. -/
def renderPlaceless (message name : String) : List Char :=
  "error: ".toList ++ message.toList ++ "\n --> ".toList ++ name.toList

/-- The report of an error about a document. -/
def render (message : String) (span : Option Span) (d : Document) : List Char :=
  match span with
  | none => renderPlaceless message d.name
  | some span => renderMarks message d.name (marks d.content d.lineIndex.1 span)

end Arith.Report
