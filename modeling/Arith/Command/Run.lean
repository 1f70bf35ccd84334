import Arith.Command.Host
import Arith.Command.Rendering
import Arith.Command.Settings
import Arith.Command.Usage
import Arith.Document.Report

/-!
# Runs of the command

A run reads its arguments, makes its settings of them, reads one document, renders it, and puts the
rendering to the one place that the settings name. What cannot be done is remarked upon, and the
run returns a code: 0 for a rendering, 1 for an error in the document, 2 for bad arguments or
settings and for a document that cannot be read. A fault that no code is foreseen for interrupts
the run, and so does a limit of the host.

The rendering is put out in one piece and as the last thing of all.
-/

namespace Arith.Command

/-- What ends a run before it is done. -/
inductive Interruption (ε : Type := Empty) where
  | settings (fault : SettingsFault ε)
  | file (path : Path) (fault : FileFault)
  | render (fault : RenderFault)
  /-- The host has no room to make the rendering. -/
  | limit (e : ε)

/-- An interruption in words. -/
def Interruption.describe : Interruption → List Char
  | settings (.file path fault) => fault.describe path
  | settings .malformedText => "the configuration is malformed text".toList
  | settings .blankLogLevel => "the log level has no value".toList
  | settings _ => "a number of the configuration has too many digits".toList
  | file path fault => fault.describe path
  | render _ => "a token cannot be read".toList

/-- How a run ends. -/
inductive Ending (ε : Type := Empty) where
  /-- The arguments alone decide the run. -/
  | dismissed (code : Nat)
  | returned (code : Nat)
  | interrupted (cause : Interruption ε)

section

variable {m : Type → Type} [Monad m] [Host m] {ε : Type}

/-! ## Remarks -/

/-- Remarks on an error that is not in a document. -/
def remarkError (message : List Char) : m Unit :=
  Host.remark ("error: ".toList ++ message ++ ['\n'])

/-- Logs what is of use only to those who look for a mistake. -/
def logDebug (level : LogLevel) (topic message : List Char) : m Unit :=
  if level.logs .debug then
    Host.remark (LogLevel.debug.label.toList ++ [' '] ++ topic ++ ": ".toList ++ message ++ ['\n'])
  else pure ()

/-- Logs what is done with a document. -/
def logDocument (level : LogLevel) (message : List Char) : m Unit :=
  logDebug level "whylang.document".toList message

/-! ## Settings -/

/-- The configuration at a path. None is there if there is no file. -/
def loadConfig (l : Limits ε) (p : Path) : m (Except (SettingsFault ε) Toml.Table) := do
  match ← Host.readFile p with
  | .ok content => return Settings.readConfig l content
  | .error fault => return if fault.isAbsence then .ok [] else .error (.file p fault)

/-- The settings for arguments. -/
def resolve (a : Arguments) (l : Limits ε := {}) : m (Except (SettingsFault ε) Settings) := do
  match ← loadConfig l (Settings.configPath a) with
  | .ok config => return Settings.merge l a config
  | .error fault => return .error fault

/-! ## Documents -/

/-- The input that stands for the input of the process. -/
def standardInput : List Char := ['-']

/-- The document that is asked for. -/
def loadDocument (s : Settings) : m (Except FileFault Document) := do
  if s.input.toText = standardInput then
    return .ok { name := "<stdin>", content := ← Host.readInput }
  match ← Host.readFile s.input with
  | .error fault => return .error fault
  | .ok content =>
    logDocument s.logLevel
      ("loaded ".toList ++ s.input.toText ++ " (".toList ++ Numeral.writeNat content.length
        ++ " bytes)".toList)
    return .ok { name := s.input.toString, content }

/-! ## Results -/

/-- Reports an error of a document. -/
def report (s : Settings) (d : Document) (message : String) (span : Span) : m (Ending ε) := do
  logDocument s.logLevel ("building line map for ".toList ++ d.name.toList)
  Host.remark (Report.render message (some span) d ++ ['\n'])
  return .returned 1

/-- Puts a rendering to its place. -/
def deliver (s : Settings) (text : List Char) : m (Ending ε) := do
  match s.output? with
  | none =>
    Host.print text
    return .returned 0
  | some path =>
    match ← Host.writeFile path (Utf8.encode text) with
    | .ok () => return .returned 0
    | .error fault => return .interrupted (.file path fault)

/-- Renders a document. -/
def compile (s : Settings) (d : Document) (l : Limits ε := {}) : m (Ending ε) := do
  let format := Format.orDefault s.format?
  match format.draft d.content with
  | .ok draft =>
    if format.isOfExpr then
      logDebug s.logLevel "whylang.cli".toList ("parsed ".toList ++ d.name.toList)
    match l.onDraft format s.indent draft with
    | some e => return .interrupted (.limit e)
    | none => deliver s (format.finish s.indent draft)
  | .error fault =>
    match fault.error? with
    | some (message, span) => report s d message span
    | none => return .interrupted (.render fault)

/-! ## Runs -/

/-- A run with settings. -/
def runSettings (s : Settings) (l : Limits ε := {}) : m (Ending ε) := do
  match ← loadDocument s with
  | .ok d => compile s d l
  | .error .badCharacter => return .interrupted (.file s.input .badCharacter)
  | .error fault =>
    remarkError ("cannot read ".toList ++ s.input.toText ++ ": ".toList ++ fault.message.toList)
    return .returned 2

/-- A run with arguments that were read. -/
def runArguments (a : Arguments) (l : Limits ε := {}) : m (Ending ε) := do
  match ← resolve a l with
  | .ok s => runSettings s l
  | .error fault =>
    match fault.message? with
    | some message =>
      remarkError message
      return .returned 2
    | none => return .interrupted (.settings fault)

/-- What is done about arguments before anything else: help is given, and bad ones are refused. -/
def readArguments (texts : List (List Char)) (c : Conventions := .early) :
    m (Except Nat Arguments) := do
  match Reading.ofTexts texts c with
  | .arguments a => return .ok a
  | .help =>
    Host.print help
    return .error 0
  | .refused r =>
    Host.remark r.notice
    return .error 2

/-- A run of the command. -/
def run (texts : List (List Char)) (c : Conventions := .early) (l : Limits ε := {}) :
    m (Ending ε) := do
  match ← readArguments texts c with
  | .ok a => runArguments a l
  | .error code => return .dismissed code

end

/-! ## Runs on surroundings -/

/-- How a run ends, and what it leaves. -/
def runOn {ε : Type} (texts : List (List Char)) (s : Surroundings) (c : Conventions := .early)
    (l : Limits ε := {}) : Ending ε × Surroundings :=
  (run texts c l : StateM Surroundings (Ending ε)) s

end Arith.Command
