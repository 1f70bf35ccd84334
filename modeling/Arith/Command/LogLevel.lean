/-!
# Log levels

A log level is the least weight that a remark must have to be logged. Its name may be written in
small or capital letters.
-/

namespace Arith

/-- The weights of remarks, from the least one up. -/
inductive LogLevel where
  | debug
  | info
  | warning
  | error
  deriving DecidableEq, Repr

namespace LogLevel

def label : LogLevel → String
  | debug => "DEBUG"
  | info => "INFO"
  | warning => "WARNING"
  | error => "ERROR"

def all : List LogLevel := [debug, info, warning, error]

/-- The place of a level among all. -/
def rank : LogLevel → Nat
  | debug => 0
  | info => 1
  | warning => 2
  | error => 3

/-- Whether remarks of a weight are logged at a level. -/
def logs (level weight : LogLevel) : Bool := level.rank ≤ weight.rank

/--
The capital of a letter, if that is a letter of ASCII. Beside the small letters of ASCII this is so
for the dotless i. The other letters with such a capital occur in no name of a level.
-/
def capital (c : Char) : Char := if c = 'ı' then 'I' else c.toUpper

/-- The level of a name. -/
def ofName? (name : List Char) : Option LogLevel :=
  all.find? fun level => level.label.toList == name.map capital

@[simp] theorem ofName?_label (level : LogLevel) : ofName? level.label.toList = some level := by
  cases level <;> decide

/-- What is said about a name that no level has. -/
def refusal (name : List Char) : List Char :=
  "invalid log level (expected one of ".toList
    ++ [',', ' '].intercalate (all.map fun level => level.label.toList) ++ "): ".toList ++ name

end LogLevel

end Arith
