import Arith.Text.Hex

/-!
# Texts, keys and blanks of TOML

The parts of a TOML text that hold no values: white space, comments, quoted texts and keys. A reader
takes the characters from a place on, and gives what it read and the characters behind that.

Quoted texts are basic (`"`, with escapes) or literal (`'`, without); either may be written in three
quotes, and then go over several lines.
-/

namespace Arith.Toml

/-- Why a configuration is not read. -/
inductive Fault where
  | malformed
  /-- A decimal integer has too many digits. -/
  | numeralTooLong
  deriving DecidableEq, Repr

/-- A reader gives what it read, and the characters behind that. -/
abbrev Read (α : Type) := Except Fault (α × List Char)

/-! ## White space and comments -/

/-- White space inside a line. -/
def isSpace (c : Char) : Bool := c == ' ' || c == '\t'

/-- White space inside brackets, where lines may end. -/
def isGap (c : Char) : Bool := isSpace c || c == '\n'

/-- Controls that may stand nowhere. -/
def isControl (c : Char) : Bool := (c.toNat < 0x20 && c != '\t') || c.toNat == 0x7F

/-- The characters behind the white space of a line. -/
def skipSpaces (s : List Char) : List Char := s.dropWhile isSpace

/-- The characters behind a comment, if one stands here: the end of its line. -/
def skipComment : List Char → Except Fault (List Char)
  | '#' :: rest =>
    if (rest.takeWhile (· != '\n')).any isControl then .error .malformed
    else .ok (rest.dropWhile (· != '\n'))
  | s => .ok s

theorem length_dropWhile_le {α : Type} (p : α → Bool) (s : List α) :
    (s.dropWhile p).length ≤ s.length :=
  (List.dropWhile_suffix p).length_le

/-- The characters behind white space, line ends and comments. -/
def skipGaps (s : List Char) : Except Fault (List Char) :=
  match _h : s.dropWhile isGap with
  | '#' :: rest =>
    if (rest.takeWhile (· != '\n')).any isControl then .error .malformed
    else skipGaps (rest.dropWhile (· != '\n'))
  | s' => .ok s'
termination_by s.length
decreasing_by
  have h1 := length_dropWhile_le isGap s
  have h2 := length_dropWhile_le (· != '\n') rest
  rw [_h] at h1
  simp only [List.length_cons] at h1
  omega

/-! ## Quoted texts -/

/-- The characters of an escape of one letter. -/
def simpleEscape? : Char → Option Char
  | 'b' => some '\x08'
  | 't' => some '\t'
  | 'n' => some '\n'
  | 'f' => some '\x0c'
  | 'r' => some '\r'
  | '"' => some '"'
  | '\\' => some '\\'
  | _ => none

/-- The character of a code point in so many hexadecimal digits; it may not be a surrogate. -/
def codeEscape (width : Nat) (s : List Char) : Read (List Char) :=
  let digits := s.take width
  match Hex.read? digits with
  | none => .error .malformed
  | some code =>
    if digits.length < width then .error .malformed
    else if code.isValidChar then .ok ([Char.ofNat code], s.drop width)
    else .error .malformed

/--
An escape that ends a line leaves out all white space behind it; `s` begins behind the backslash.
-/
def lineEscape (s : List Char) : Read (List Char) :=
  match skipSpaces s with
  | [] => .ok ([], [])
  | '\n' :: rest => .ok ([], rest.dropWhile isGap)
  | _ => .error .malformed

/-- The characters that an escape stands for; `s` begins behind the backslash. -/
def escape (multiline : Bool) (s : List Char) : Read (List Char) :=
  match s with
  | [] => .error .malformed
  | c :: rest =>
    if multiline && isGap c then lineEscape s
    else if c = 'u' then codeEscape 4 rest
    else if c = 'U' then codeEscape 8 rest
    else match simpleEscape? c with
      | some e => .ok ([e], rest)
      | none => .error .malformed

/-- A reading that ends behind where it began, or else has a fault. -/
def shorterOr {ε α : Type} (fault : ε) (s : List Char) (r : Except ε (α × List Char)) :
    Except ε { found : α × List Char // found.2.length < s.length } :=
  match r with
  | .error f => .error f
  | .ok found => if h : found.2.length < s.length then .ok ⟨found, h⟩ else .error fault

/-- A reading that ends behind where it began. -/
def shorter {α : Type} (s : List Char) (r : Read α) :
    Except Fault { found : α × List Char // found.2.length < s.length } :=
  shorterOr .malformed s r

/-- Characters in front of a text that was read. -/
def prepend (front : List Char) (r : Read (List Char)) : Read (List Char) :=
  r.map fun (text, rest) => (front ++ text, rest)

/-- The characters of a basic text up to its closing quotes. -/
def basicText (multiline : Bool) (s : List Char) : Read (List Char) :=
  match s with
  | [] => .error .malformed
  | c :: rest =>
    if c = '"' then
      if !multiline then .ok ([], rest)
      else if ['"', '"'].isPrefixOf rest then .ok ([], rest.drop 2)
      else prepend [c] (basicText multiline rest)
    else if c = '\\' then
      match shorter (c :: rest) (escape multiline rest) with
      | .error f => .error f
      | .ok ⟨(chars, behind), _h⟩ => prepend chars (basicText multiline behind)
    else if isControl c && !(multiline && c == '\n') then .error .malformed
    else prepend [c] (basicText multiline rest)
termination_by s.length
decreasing_by
  · exact Nat.lt_succ_self _
  · exact _h
  · exact Nat.lt_succ_self _

/-- The characters of a literal text up to its closing quotes. -/
def literalText (multiline : Bool) (s : List Char) : Read (List Char) :=
  match s with
  | [] => .error .malformed
  | c :: rest =>
    if c = '\'' && !multiline then .ok ([], rest)
    else if c = '\'' && ['\'', '\''].isPrefixOf rest then .ok ([], rest.drop 2)
    else if isControl c && !(multiline && c == '\n') then .error .malformed
    else prepend [c] (literalText multiline rest)

/-- Up to two quotes that stand directly before the closing ones belong to the text. -/
def closingQuotes (quote : Char) (r : Read (List Char)) : Read (List Char) :=
  r.map fun (text, rest) =>
    let extra := (rest.take 2).takeWhile (· == quote)
    (text ++ extra, rest.drop extra.length)

/-- The characters behind a line end that follows opening quotes. -/
def skipFirstLineEnd : List Char → List Char
  | '\n' :: rest => rest
  | s => s

/-- A quoted text, if a quote stands here. Texts in three quotes are read if `multiline` is set. -/
def quotedText? (multiline : Bool) : List Char → Option (Read (List Char))
  | '"' :: rest =>
    if multiline && ['"', '"'].isPrefixOf rest then
      some (closingQuotes '"' (basicText true (skipFirstLineEnd (rest.drop 2))))
    else some (basicText false rest)
  | '\'' :: rest =>
    if multiline && ['\'', '\''].isPrefixOf rest then
      some (closingQuotes '\'' (literalText true (skipFirstLineEnd (rest.drop 2))))
    else some (literalText false rest)
  | _ => none

/-! ## Keys -/

/-- Characters of a key without quotes. -/
def isKeyChar (c : Char) : Bool :=
  ('a' ≤ c && c ≤ 'z') || ('A' ≤ c && c ≤ 'Z') || ('0' ≤ c && c ≤ '9') || c == '-' || c == '_'

/-- One name of a key. -/
def keyPart (s : List Char) : Read String :=
  match quotedText? false s with
  | some r => r.map fun (text, rest) => (String.ofList text, rest)
  | none =>
    match s.takeWhile isKeyChar with
    | [] => .error .malformed
    | name => .ok (String.ofList name, s.dropWhile isKeyChar)

/-- A key: names with dots between them. White space around names is skipped. -/
def key (s : List Char) : Read (List String) :=
  match shorter s (keyPart s) with
  | .error f => .error f
  | .ok ⟨(name, rest), _h1⟩ =>
    match _h : skipSpaces rest with
    | '.' :: more =>
      (key (skipSpaces more)).map fun (names, behind) => (name :: names, behind)
    | behind => .ok ([name], behind)
termination_by s.length
decreasing_by
  have h2 : ('.' :: more).length ≤ rest.length := _h ▸ length_dropWhile_le isSpace rest
  exact Nat.lt_of_le_of_lt (length_dropWhile_le isSpace more)
    (Nat.lt_of_lt_of_le h2 (Nat.le_of_lt _h1))

end Arith.Toml
