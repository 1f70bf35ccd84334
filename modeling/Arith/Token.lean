import Arith.Text.Numeral
import Arith.Text.Utf8

/-!
# Tokens

A token is a span of the source text and what stands there: a lexeme, which carries the value of a
number, the text of an identifier or the keyword. The text of a token is recovered from the source
through its span.

Tokens can also be put together from a kind and a value (`Lexeme.ofParts`), which have to fit.
-/

namespace Arith

/-! ## Reserved words and symbols -/

/-- The reserved words. -/
inductive Keyword where
  | define
  | external
  deriving DecidableEq, Repr

namespace Keyword

/-- The text of a reserved word. -/
def spelling : Keyword → String
  | define => "def"
  | external => "extern"

/-- The name of a reserved word in listings. -/
def label : Keyword → String
  | define => "DEF"
  | external => "EXTERN"

def all : List Keyword := [define, external]

/-- The reserved word that a text spells. -/
def ofSpelling? (text : String) : Option Keyword := all.find? fun k => k.spelling == text

@[simp] theorem ofSpelling?_spelling (k : Keyword) : ofSpelling? k.spelling = some k := by
  cases k <;> decide

end Keyword

/-- The characters that are a token each. -/
inductive Symbol where
  | leftParen
  | rightParen
  | comma
  | plus
  | minus
  | star
  | slash
  | assign
  deriving DecidableEq, Repr

namespace Symbol

/-- The character of a symbol. -/
def char : Symbol → Char
  | leftParen => '('
  | rightParen => ')'
  | comma => ','
  | plus => '+'
  | minus => '-'
  | star => '*'
  | slash => '/'
  | assign => '='

/-- The name of a symbol in listings. -/
def label : Symbol → String
  | leftParen => "LPAREN"
  | rightParen => "RPAREN"
  | comma => "COMMA"
  | plus => "PLUS"
  | minus => "MINUS"
  | star => "STAR"
  | slash => "SLASH"
  | assign => "ASSIGN"

def all : List Symbol := [leftParen, rightParen, comma, plus, minus, star, slash, assign]

/-- The symbol that a character is. -/
def ofChar? (c : Char) : Option Symbol := all.find? fun s => s.char == c

/-- The symbol that a text is. -/
def ofText? : List Char → Option Symbol
  | [c] => ofChar? c
  | _ => none

@[simp] theorem ofChar?_char (s : Symbol) : ofChar? s.char = some s := by
  cases s <;> decide

end Symbol

/-! ## Lexemes -/

/-- What stands at a token. -/
inductive Lexeme where
  /-- A character that belongs to no other token. -/
  | unknown
  | number (value : Int)
  | identifier (name : String)
  | keyword (word : Keyword)
  | symbol (symbol : Symbol)
  deriving DecidableEq, Repr

/-- The kinds of tokens. -/
inductive TokenKind where
  | unknown
  | number
  | identifier
  | keyword
  | symbol (symbol : Symbol)
  deriving DecidableEq, Repr

namespace TokenKind

/-- The name of a kind in listings. -/
def label : TokenKind → String
  | unknown => "UNKNOWN"
  | number => "NUMBER"
  | identifier => "IDENTIFIER"
  | keyword => "KEYWORD"
  | symbol s => s.label

def all : List TokenKind :=
  [unknown, number, identifier, keyword] ++ Symbol.all.map symbol

/-- The kind of a name. -/
def ofLabel? (label : String) : Option TokenKind := all.find? fun k => k.label == label

end TokenKind

/-- What can be given as the value of a token. -/
inductive TokenValue where
  | absent
  | boolean (value : Bool)
  | integer (value : Int)
  | text (value : String)
  | keyword (word : Keyword)
  deriving DecidableEq, Repr

namespace TokenValue

/-- A value as messages show it. -/
def describe : TokenValue → String
  | absent => "None"
  | boolean true => "True"
  | boolean false => "False"
  | integer n => String.ofList (Numeral.write n)
  | text s => String.ofList (Quoted.ofText s.toList)
  | keyword k => s!"<Keyword.{k.label}: {String.ofList (Quoted.ofText k.spelling.toList)}>"

end TokenValue

/-- A kind and a value that do not fit. -/
structure TokenMismatch where
  kind : TokenKind
  value : TokenValue
  deriving DecidableEq, Repr

namespace TokenMismatch

def message (m : TokenMismatch) : String :=
  s!"{m.kind.label} token cannot carry value {m.value.describe}"

end TokenMismatch

namespace Lexeme

def kind : Lexeme → TokenKind
  | unknown => .unknown
  | number _ => .number
  | identifier _ => .identifier
  | keyword _ => .keyword
  | symbol s => .symbol s

def value : Lexeme → TokenValue
  | unknown => .absent
  | number n => .integer n
  | identifier name => .text name
  | keyword k => .keyword k
  | symbol _ => .absent

/--
The lexeme of a kind with a value. Numbers, identifiers and keywords carry theirs, all others
none.
-/
def ofParts : TokenKind → TokenValue → Except TokenMismatch Lexeme
  | .unknown, .absent => .ok unknown
  | .number, .integer n => .ok (number n)
  | .identifier, .text name => .ok (identifier name)
  | .keyword, .keyword k => .ok (keyword k)
  | .symbol s, .absent => .ok (symbol s)
  | kind, value => .error ⟨kind, value⟩

/-- A lexeme is put together again from its kind and its value. -/
@[simp] theorem ofParts_kind_value (l : Lexeme) : ofParts l.kind l.value = .ok l := by
  cases l <;> rfl

end Lexeme

/-! ## Tokens -/

/-- A lexeme at its place in the source text. -/
structure Token where
  span : Span
  lexeme : Lexeme
  deriving DecidableEq, Repr

namespace Token

/-- The text of a token in its source, unless the bytes there are malformed. -/
def text? (t : Token) (source : Bytes) : Option (List Char) := Utf8.decode? (t.span.slice source)

/-- The same token in a text that has `count` more bytes in front. -/
def shift (count : Nat) (t : Token) : Token := ⟨t.span.shift count, t.lexeme⟩

end Token

end Arith
