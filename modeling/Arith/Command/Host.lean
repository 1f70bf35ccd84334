import Arith.Files.FileTree

/-!
# Hosts

A host is what a run of the command acts on: files, the input of the process, and two outputs, one
for results and one for remarks. A run is the same on every host. `Surroundings` is a host that is
a plain value, so that what a run does to it can be seen.
-/

namespace Arith.Command

/-- What can be done on a host. -/
class Host (m : Type → Type) where
  /-- The content of a file. -/
  readFile (p : Path) : m (Except FileFault Bytes)
  /-- Writes a file. -/
  writeFile (p : Path) (content : Bytes) : m (Except FileFault Unit)
  /-- All of the input of the process. -/
  readInput : m Bytes
  /-- Adds to the results. -/
  print (text : List Char) : m Unit
  /-- Adds to the remarks. -/
  remark (text : List Char) : m Unit

/-- A host as a value: its files, its input, and what was put out. -/
structure Surroundings where
  files : FileTree := {}
  input : Bytes := []
  results : List Char := []
  remarks : List Char := []
  deriving DecidableEq, Repr

namespace Surroundings

/-- Writes a file, or leaves all as it is. -/
def writeFile (p : Path) (content : Bytes) (s : Surroundings) :
    Except FileFault Unit × Surroundings :=
  match s.files.write p content with
  | .ok files => (.ok (), { s with files })
  | .error f => (.error f, s)

end Surroundings

instance : Host (StateM Surroundings) where
  readFile p := fun s => (s.files.read p, s)
  writeFile p content := fun s => s.writeFile p content
  readInput := fun s => (s.input, s)
  print text := fun s => ((), { s with results := s.results ++ text })
  remark text := fun s => ((), { s with remarks := s.remarks ++ text })

end Arith.Command
