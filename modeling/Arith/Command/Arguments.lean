import Arith.Text.DecimalDigit
import Arith.Text.Quoted

/-!
# Command-line arguments

An argument is an option or a positional argument. Options have long names, of which any beginning
that is unique will do, and some have a short name. The value of an option stands behind an equals
sign, directly behind the short name, or in the next argument, which must be no option. The short
flag for help can be run together with the short options behind it.

What looks like a negative number or holds a blank is no option, unless it is the name of one. Two
dashes alone end the options. An argument that is left over, and one that looks like an option but
is none, are refused once all others have been read.

## Conventions

Arguments have been read by two conventions (`Conventions`). By the early one, two dashes as the
value of an option stand for no value at all: the option is given, but says nothing (`Given.blank`).
By the late one, they are a text like any other. The two also differ about letters behind the short
flag for help that are no options.

## Texts

Arguments are texts of characters. A system can hand over surrogates that are no part of a character
too; those are in no text here.
-/

namespace Arith.Command

/-! ## Formats and options -/

/-- The renderings that can be asked for. -/
inductive Format where
  | sexpr
  | tree
  | tokens
  deriving DecidableEq, Repr

namespace Format

def label : Format → String
  | sexpr => "sexpr"
  | tree => "tree"
  | tokens => "tokens"

def all : List Format := [sexpr, tree, tokens]

/-- The format of a name. -/
def ofLabel? (name : List Char) : Option Format := all.find? fun f => f.label.toList == name

@[simp] theorem ofLabel?_label (f : Format) : ofLabel? f.label.toList = some f := by
  cases f <;> decide

end Format

/-- The options that have a value. -/
inductive ValueFlag where
  | output
  | format
  | config
  | logLevel
  deriving DecidableEq, Repr

/-- The options of the command. -/
inductive Flag where
  | help
  | indent
  | value (flag : ValueFlag)
  deriving DecidableEq, Repr

namespace Flag

def all : List Flag :=
  [help, value .output, value .format, indent, value .config, value .logLevel]

/-- The letter of an option that has a short name. -/
def letter? : Flag → Option Char
  | help => some 'h'
  | value .output => some 'o'
  | value .format => some 'f'
  | _ => none

/-- The long name of an option. -/
def longName : Flag → List Char
  | help => "--help".toList
  | indent => "--indent".toList
  | value .output => "--output".toList
  | value .format => "--format".toList
  | value .config => "--config".toList
  | value .logLevel => "--log-level".toList

/-- The short name of an option. -/
def shortName? (f : Flag) : Option (List Char) := f.letter?.map fun c => ['-', c]

/-- All names of an option, the short one first. -/
def names (f : Flag) : List (List Char) := f.shortName?.toList ++ [f.longName]

/-- The option of a name. -/
def ofName? (name : List Char) : Option Flag := all.find? fun f => f.names.contains name

/-- The option of a letter. -/
def ofLetter? (c : Char) : Option Flag := all.find? fun f => f.letter? == some c

end Flag

/-! ## Refusals -/

/-- Why arguments are refused. -/
inductive Refusal where
  | ambiguous (argument : List Char) (candidates : List Flag)
  | missingValue (flag : ValueFlag)
  | needlessValue (flag : Flag) (value : List Char)
  | badFormat (name : List Char)
  | missingInput
  | unrecognized (arguments : List (List Char))
  deriving DecidableEq, Repr

namespace Refusal

/-- An option as messages name it. -/
def flagText (f : Flag) : List Char := ['/'].intercalate f.names

/-- A message about an option. -/
def aboutFlag (f : Flag) (message : List Char) : List Char :=
  "argument ".toList ++ flagText f ++ ": ".toList ++ message

def message : Refusal → List Char
  | ambiguous argument candidates =>
    "ambiguous option: ".toList ++ argument ++ " could match ".toList
      ++ [',', ' '].intercalate (candidates.map Flag.longName)
  | missingValue f => aboutFlag (.value f) "expected one argument".toList
  | needlessValue f value =>
    aboutFlag f ("ignored explicit argument ".toList ++ Quoted.ofText value)
  | badFormat name =>
    aboutFlag (.value .format) ("invalid choice: ".toList ++ Quoted.ofText name
      ++ " (choose from ".toList
      ++ [',', ' '].intercalate (Format.all.map fun f => Quoted.ofText f.label.toList) ++ [')'])
  | missingInput => "the following arguments are required: input".toList
  | unrecognized arguments =>
    "unrecognized arguments: ".toList ++ [' '].intercalate arguments

end Refusal

/-! ## Conventions -/

/-- How arguments are read where there has been more than one way. -/
structure Conventions where
  /-- Two dashes as the value of an option are a text, and not the lack of one. -/
  dashesAreText : Bool
  /--
  Behind the letter for help, a letter that is no option is left over, and an equals sign ends the
  letters. Otherwise both are refused there, and an equals sign directly behind the letter for help
  is skipped.
  -/
  strayLetters : Bool
  deriving DecidableEq, Repr

namespace Conventions

def early : Conventions := { dashesAreText := false, strayLetters := false }

def late : Conventions := { dashesAreText := true, strayLetters := true }

end Conventions

/-! ## Words -/

/-- What an argument is on its own. -/
inductive Word where
  | positional (text : List Char)
  /-- An option with its value, if there is one, which may be letters that go on from its own. -/
  | option (flag : Flag) (letters : Bool) (value? : Option (List Char))
  /-- It looks like an option but is none. -/
  | unknown (text : List Char)
  /-- Two dashes alone. -/
  | separator
  deriving DecidableEq, Repr

/-- A minus sign with decimal digits behind it, perhaps with a point among them. -/
def looksNegative (text : List Char) : Bool :=
  let isDigit (c : Char) : Bool := (DecimalDigit.value? c).isSome
  let text := if text.getLast? = some '\n' then text.dropLast else text
  match text with
  | '-' :: number =>
    match number.dropWhile isDigit with
    | [] => !number.isEmpty
    | '.' :: places => !places.isEmpty && places.all isDigit
    | _ => false
  | _ => false

/-- A text before its first equals sign, and what stands behind that. -/
def splitEquals (text : List Char) : List Char × Option (List Char) :=
  match text.dropWhile (· != '=') with
  | _ :: value => (text.takeWhile (· != '='), some value)
  | [] => (text, none)

/-- The options that an argument can mean if it is the whole name of none. -/
def candidates (text : List Char) : List (Flag × Bool × Option (List Char)) :=
  match text with
  | '-' :: '-' :: _ =>
    let (beginning, value?) := splitEquals text
    (Flag.all.filter fun f => beginning.isPrefixOf f.longName).map fun f => (f, false, value?)
  | '-' :: c :: value =>
    (Flag.ofLetter? c).toList.map fun f => (f, true, some value)
  | _ => []

/-- Whether a text is the short name of an option. -/
def isShort (name : List Char) : Bool := name.length == 2

/-- What an argument is on its own, unless it is ambiguous. -/
def Word.ofText (c : Conventions) (text : List Char) : Except Refusal Word :=
  let plain : Except Refusal Word := .ok (.positional text)
  match text with
  | '-' :: _ :: _ =>
    let (name, value?) := splitEquals text
    match Flag.ofName? text, Flag.ofName? name with
    | some f, _ => .ok (.option f (isShort text) none)
    | none, some f => .ok (.option f (isShort name && !c.strayLetters) value?)
    | none, none =>
      match candidates text with
      | [(f, letters, value?)] => .ok (.option f letters value?)
      | [] => if looksNegative text || text.contains ' ' then plain else .ok (.unknown text)
      | several => .error (.ambiguous text (several.map Prod.fst))
  | _ => plain

/-- What arguments are on their own. Behind two dashes all are positional. -/
def words (c : Conventions) : List (List Char) → Except Refusal (List Word)
  | [] => .ok []
  | text :: rest =>
    if text = ['-', '-'] then .ok (.separator :: rest.map .positional)
    else do
      let word ← Word.ofText c text
      return word :: (← words c rest)

/-! ## Reading -/

/-- What is said by an option that has a value. -/
inductive Given (α : Type) where
  /-- The option is not given. -/
  | unset
  /-- The option is given without a value. -/
  | blank
  | value (a : α)
  deriving DecidableEq, Repr

namespace Given

variable {α : Type}

/-- The value of an option, if it is given with one. -/
def value? : Given α → Option α
  | value a => some a
  | _ => none

@[simp] theorem value?_value (a : α) : (value a).value? = some a := rfl

end Given

/-- What the arguments say. -/
structure Arguments where
  input : List Char
  output : Given (List Char) := .unset
  format : Given Format := .unset
  indent : Bool := false
  config : Given (List Char) := .unset
  logLevel : Given (List Char) := .unset
  deriving DecidableEq, Repr

/-- What comes of reading arguments. -/
inductive Reading where
  | arguments (a : Arguments)
  | help
  | refused (r : Refusal)
  deriving DecidableEq, Repr

/-- What the arguments so far say. -/
structure Partial where
  input? : Option (List Char) := none
  given : Arguments := { input := [] }
  /-- Arguments that are left over. -/
  extra : List (List Char) := []

namespace Partial

/-- What a text says as the value of an option. -/
def givenText (c : Conventions) (text : List Char) : Given (List Char) :=
  if text = ['-', '-'] ∧ c.dashesAreText = false then .blank else .value text

/-- What a text says as the value of the option for the format. -/
def givenFormat (c : Conventions) (text : List Char) : Except Refusal (Given Format) :=
  match givenText c text with
  | .unset => .ok .unset
  | .blank => .ok .blank
  | .value name =>
    match Format.ofLabel? name with
    | some format => .ok (.value format)
    | none => .error (.badFormat name)

/-- Sets the value of an option. -/
def set (p : Partial) (c : Conventions) (f : ValueFlag) (text : List Char) :
    Except Refusal Partial :=
  match f with
  | .output => .ok { p with given := { p.given with output := givenText c text } }
  | .config => .ok { p with given := { p.given with config := givenText c text } }
  | .logLevel => .ok { p with given := { p.given with logLevel := givenText c text } }
  | .format => do
    let format ← givenFormat c text
    return { p with given := { p.given with format } }

/-- Leaves an argument over. -/
def leave (p : Partial) (text : List Char) : Partial := { p with extra := p.extra ++ [text] }

/-- The end of the arguments. -/
def finish (p : Partial) : Reading :=
  match p.input? with
  | none => .refused .missingInput
  | some input =>
    if p.extra.isEmpty then .arguments { p.given with input } else .refused (.unrecognized p.extra)

end Partial

/--
What stands in the way of the short options that are run together behind the one for help: what is
no option, or a value that is missing.
-/
def clusterRefusal? (c : Conventions) (valueFollows : Bool) (text : List Char) : Option Refusal :=
  match text with
  | [] => none
  | letter :: more =>
    match Flag.ofLetter? letter with
    | some (.value f) => if more.isEmpty && !valueFollows then some (.missingValue f) else none
    | some _ => clusterRefusal? c valueFollows more
    | none =>
      if !c.strayLetters || letter == '-' then some (.needlessValue .help text)
      else if letter == '=' then some (.needlessValue .help more)
      else none

/-- Whether the next word can be the value of an option. -/
def startsPositional : List Word → Bool
  | .positional _ :: _ => true
  | _ => false

/-- Reads the words that are left. -/
def readWords (c : Conventions) (p : Partial) : List Word → Reading
  | [] => p.finish
  | .positional text :: rest =>
    if p.input?.isSome then readWords c (p.leave text) rest
    else match rest with
      | .separator :: rest => readWords c { p with input? := some text } rest
      | rest => readWords c { p with input? := some text } rest
  | .separator :: rest =>
    match p.input?, rest with
    | none, .positional text :: rest => readWords c { p with input? := some text } rest
    | _, rest => readWords c (p.leave ['-', '-']) rest
  | .unknown text :: rest => readWords c (p.leave text) rest
  | .option (.value f) _ (some value) :: rest =>
    match p.set c f value with
    | .error r => .refused r
    | .ok p => readWords c p rest
  | .option (.value f) _ none :: .positional value :: rest =>
    match p.set c f value with
    | .error r => .refused r
    | .ok p => readWords c p rest
  | .option (.value f) _ none :: _ => .refused (.missingValue f)
  | .option .help _ none :: _ => .help
  | .option .indent _ none :: rest =>
    readWords c { p with given := { p.given with indent := true } } rest
  | .option f letters (some value) :: rest =>
    if letters && !value.isEmpty then
      match clusterRefusal? c (startsPositional rest) value with
      | some r => .refused r
      | none => .help
    else .refused (.needlessValue f value)

/-- Reads arguments. -/
def Reading.ofTexts (texts : List (List Char)) (c : Conventions := .early) : Reading :=
  match words c texts with
  | .error r => .refused r
  | .ok words => readWords c {} words

end Arith.Command
