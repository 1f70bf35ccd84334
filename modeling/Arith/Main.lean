import Arith.Command.Run

/-!
# The command

The process as a host, and the run of the command on it.
-/

namespace Arith.Command

/-- The number behind a code of the system, which may be given as its negative. -/
def errorNumber (code : UInt32) : Nat := code.toInt32.toInt.natAbs

/-- The number of an error of the system, and the words for it. -/
def systemError : IO.Error → Nat × String
  | .otherError code words | .resourceBusy code words | .resourceVanished code words
  | .unsupportedOperation code words | .hardwareFault code words
  | .unsatisfiedConstraints code words | .illegalOperation code words | .protocolError code words
  | .timeExpired code words | .alreadyExists _ code words | .interrupted _ code words
  | .noFileOrDirectory _ code words | .invalidArgument _ code words
  | .permissionDenied _ code words | .resourceExhausted _ code words
  | .inappropriateType _ code words | .noSuchThing _ code words => (errorNumber code, words)
  | .unexpectedEof => (0, "unexpected end of file")
  | .userError words => (0, words)

/-- Does something with the file at a path, and tells why it cannot be done. -/
def onFile {α : Type} (p : Path) (act : String → IO α) : IO (Except FileFault α) := do
  if p.toText.contains '\x00' then return .error .badCharacter
  try return .ok (← act p.toString)
  catch e =>
    let (number, words) := systemError e
    return .error (.ofNumber number words)

/-- All bytes that are left of a stream. -/
partial def readAll (stream : IO.FS.Stream) (before : ByteArray) : IO ByteArray := do
  let bytes ← stream.read 65536
  if bytes.isEmpty then return before
  readAll stream (before ++ bytes)

instance : Host IO where
  readFile p := onFile p fun name => return (← IO.FS.readBinFile name).toList
  writeFile p content := onFile p fun name => IO.FS.writeBinFile name ⟨content.toArray⟩
  readInput := return (← readAll (← IO.getStdin) .empty).toList
  print text := do (← IO.getStdout).putStr (String.ofList text)
  remark text := do (← IO.getStderr).putStr (String.ofList text)

/-- Runs the command; an interrupted run has the code of a failed one. -/
def runProcess (arguments : List String) : IO UInt32 := do
  match ← (run (arguments.map String.toList) : IO Ending) with
  | .dismissed code => return code.toUInt32
  | .returned code => return code.toUInt32
  | .interrupted cause =>
    remarkError cause.describe
    return 1

end Arith.Command

def main (arguments : List String) : IO UInt32 := Arith.Command.runProcess arguments
