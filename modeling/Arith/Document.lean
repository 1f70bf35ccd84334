import Arith.Document.LineIndex
import Arith.Document.Memo

/-!
# Documents

A document is a source text under a name. Its line index is made when it is first needed, and kept.
-/

namespace Arith

/-- A source text under a name, with its line index once that was needed. -/
structure Document where
  name : String
  content : Bytes
  index : Memo LineIndex := {}
  deriving DecidableEq, Repr

namespace Document

/-- Whether the line index was made. -/
def isIndexed (d : Document) : Bool := d.index.isMade

/-- The line index of a document, and the document that keeps it. -/
def lineIndex (d : Document) : LineIndex × Document :=
  let (lines, index) := d.index.getOrMake fun _ => LineIndex.ofBytes d.content
  (lines, { d with index })

/-- Whether a byte may stand in a line break. -/
def isBreakByte (b : UInt8) : Bool := b == 0x0A || b == 0x0D

/-- A text without the break bytes at its end. -/
def trimBreaks (text : Bytes) : Bytes := (text.reverse.dropWhile isBreakByte).reverse

/--
The bytes of a line of a text without the break that ends it; the line has to be one of the index.
-/
def lineOf (content : Bytes) (index : LineIndex) (line : Nat) : Bytes :=
  let stop := (index.breaks.getD line content.length).toNat
  trimBreaks ((content.take stop).drop (index.startOf line).toNat)

/-- The bytes of a line without the break that ends it. Lines are counted from 0. -/
def lineText (line : Int) (d : Document) : Except LineIndex.Fault Bytes × Document :=
  let (index, d) := d.lineIndex
  match index.lineStart line with
  | .error f => (.error f, d)
  | .ok _ => (.ok (lineOf d.content index line.toNat), d)

end Document

end Arith
