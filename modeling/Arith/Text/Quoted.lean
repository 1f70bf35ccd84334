import Arith.Text.Hex
import Arith.Text.Printable
import Arith.Text.Span

/-!
# Quoted text

Listings and messages show a text in quotes, so that its ends and its invisible characters can be
seen. The quotes are single ones, unless the text holds a single quote and no double one.
-/

namespace Arith.Quoted

/-- The quote that stands around a text. -/
def mark (text : List Char) : Char :=
  if text.contains '\'' && !text.contains '"' then '"' else '\''

/-- A character by its code point: `\xNN`, `\uNNNN` or `\UNNNNNNNN`. -/
def byCode (code : Nat) : List Char :=
  if code < 0x100 then '\\' :: 'x' :: Hex.padded 2 code
  else if code < 0x10000 then '\\' :: 'u' :: Hex.padded 4 code
  else '\\' :: 'U' :: Hex.padded 8 code

/-- A character as it stands between quotes; `shown` are the characters that need no escape. -/
def escape (shown : Char → Bool) (quote c : Char) : List Char :=
  if c = quote ∨ c = '\\' then ['\\', c]
  else if c = '\n' then ['\\', 'n']
  else if c = '\r' then ['\\', 'r']
  else if c = '\t' then ['\\', 't']
  else if shown c then [c]
  else byCode c.toNat

/-- A text between quotes, with the characters that are not `shown` by their codes. -/
def enclose (shown : Char → Bool) (text : List Char) : List Char :=
  let quote := mark text
  quote :: text.flatMap (escape shown quote) ++ [quote]

/-- A text in quotes. -/
def ofText (text : List Char) : List Char := enclose isPrintable text

/-- Bytes in quotes: those of printable ASCII as characters, all others by their codes. -/
def ofBytes (bytes : Bytes) : List Char :=
  'b' :: enclose (fun c => 0x20 ≤ c.toNat && c.toNat < 0x7F)
    (bytes.map fun b => Char.ofNat b.toNat)

end Arith.Quoted
