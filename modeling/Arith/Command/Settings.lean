import Arith.Command.Limits
import Arith.Command.LogLevel
import Arith.Files.FileTree
import Arith.Text.Utf8
import Arith.Toml.Config

/-!
# Settings

The settings of a run: what the arguments say, then what the configuration says, then what holds
by default. An option that is given without a value leaves the output and the configuration as they
are by default, and as a format it takes back what the configuration names; a log level cannot do
without a value. By the late convention there are no such options (`Conventions`).

Of a configuration the format and the indentation of the output and the log level are used. A format
has to be a known one, and so does a log level that is given as a text, whether the arguments say
something else or not; other values of a wrong type say nothing.

A host may have no room to read a configuration, or to write the value that is no format
(`SettingsFault.limit`).
-/

namespace Arith.Command

/-- What a run does. -/
structure Settings where
  input : Path
  /-- Where the result goes, if not to the output of the process. -/
  output? : Option Path := none
  /-- The format that is named, if one is. -/
  format? : Option Format := some .sexpr
  indent : Bool := false
  logLevel : LogLevel := .warning
  deriving DecidableEq, Repr

/-- Why there are no settings. A host without limits has none of type `ε`. -/
inductive SettingsFault (ε : Type := Empty) where
  | badFormat (value : Toml.Value)
  | badLogLevel (name : List Char)
  /-- The log level is given without a value. -/
  | blankLogLevel
  | malformedConfig
  /-- An integer of the configuration has too many digits. -/
  | longNumeral
  /-- The configuration is no text. -/
  | malformedText
  /-- The configuration cannot be reached. -/
  | file (path : Path) (fault : FileFault)
  /-- A limit of the host. -/
  | limit (e : ε)

variable {ε : Type}

namespace SettingsFault

/-- What is said about a format that is none. -/
def formatMessage (value : Toml.Value) : List Char :=
  "invalid output format in config (expected one of ".toList
    ++ [',', ' '].intercalate (Format.all.map fun f => f.label.toList) ++ "): ".toList
    ++ value.toText

/--
What is said about a fault. Nothing is said about one that the command is not prepared for. What
makes a configuration malformed, and where, is left out here; the command tells it behind a colon.
-/
def message? : SettingsFault ε → Option (List Char)
  | badFormat value => some (formatMessage value)
  | badLogLevel name => some (LogLevel.refusal name)
  | blankLogLevel => none
  | malformedConfig => some "invalid config file".toList
  | longNumeral => none
  | malformedText => none
  | file _ _ => none
  | limit _ => none

/-- A configuration that is not read, or a value that is not written. -/
def ofStop : Toml.Stop ε → SettingsFault ε
  | .fault .malformed => malformedConfig
  | .fault .numeralTooLong => longNumeral
  | .limit e => limit e

end SettingsFault

namespace Settings

/-! ## The configuration -/

/-- The name of a configuration that is looked for beside the input. -/
def configName : List Char := "whylang.toml".toList

/-- The path that a text stands for, unless it is empty. -/
def pathOf? : List Char → Option Path
  | [] => none
  | text => some (.ofText text)

/-- The path of the configuration: the one that is given, or else the one beside the input. -/
def configPath (a : Arguments) : Path :=
  match a.config.value?.bind pathOf? with
  | some path => path
  | none => (Path.ofText a.input).parent.child configName

/-- The configuration that bytes stand for. -/
def readConfig (l : Limits ε) (content : Bytes) : Except (SettingsFault ε) Toml.Table :=
  match Utf8.decode? content with
  | none => .error .malformedText
  | some text => (Toml.read l.toLimits text).mapError .ofStop

/-! ## Single settings -/

/-- The format that a value is the name of. -/
def formatNamed? (value : Toml.Value) : Option Format :=
  value.text?.bind fun name => Format.ofLabel? name.toList

/-- The format that a value of a configuration names. The message about another value shows it. -/
def formatOf (l : Limits ε) (value : Toml.Value) : Except (SettingsFault ε) Format :=
  match formatNamed? value with
  | some format => .ok format
  | none =>
    match value.stop? l.toLimits 0 with
    | some stop => .error (.ofStop stop)
    | none => .error (.badFormat value)

/-- The log level of a name. -/
def logLevelOf (name : List Char) : Except (SettingsFault ε) LogLevel :=
  match LogLevel.ofName? name with
  | some level => .ok level
  | none => .error (.badLogLevel name)

/-- The format that a configuration asks for. -/
def configFormat (l : Limits ε) (config : Toml.Table) : Except (SettingsFault ε) Format :=
  match (config.within "output").find? "format" with
  | some value => formatOf l value
  | none => .ok .sexpr

/-- Whether a configuration asks for indentation. -/
def configIndent (config : Toml.Table) : Bool :=
  match (config.within "output").find? "indent" with
  | some (.boolean indent) => indent
  | _ => false

/-- The log level that a configuration asks for. -/
def configLogLevel (config : Toml.Table) : Except (SettingsFault ε) LogLevel :=
  match (config.within "logging").find? "level" with
  | some (.text name) => logLevelOf name.toList
  | _ => .ok .warning

/-! ## All settings -/

/-- What arguments and a configuration say together. -/
def merge (l : Limits ε) (a : Arguments) (config : Toml.Table) :
    Except (SettingsFault ε) Settings := do
  let format ← configFormat l config
  let level ← configLogLevel config
  let logLevel ← match a.logLevel with
    | .unset => .ok level
    | .blank => .error .blankLogLevel
    | .value name => logLevelOf name
  return {
    input := .ofText a.input
    output? := a.output.value?.bind pathOf?
    format? := match a.format with
      | .unset => some format
      | .blank => none
      | .value format => some format
    indent := a.indent || configIndent config
    logLevel }

end Settings

end Arith.Command
