import Arith.Files.Path
import Arith.Text.Numeral
import Arith.Text.Quoted

/-!
# Trees of files

A file tree is all that lies below the root of a system. A path is followed name by name, from the
root or from the working directory, and every name but the last has to be that of a directory.
-/

namespace Arith

/-- Why a file cannot be used. -/
inductive FileFault where
  | notFound
  | notADirectory
  | isADirectory
  | nameTooLong
  /-- There is no room for what is written. -/
  | noRoom
  /-- The path holds a character that no path may have. -/
  | badCharacter
  /-- Another fault, with its number and the words of the system for it. -/
  | other (number : Nat) (message : String)
  deriving DecidableEq, Repr

namespace FileFault

/-- What the system says about a fault. -/
def message : FileFault → String
  | notFound => "No such file or directory"
  | notADirectory => "Not a directory"
  | isADirectory => "Is a directory"
  | nameTooLong => "File name too long"
  | noRoom => "No space left on device"
  | badCharacter => "embedded null byte"
  | other _ message => message

/-- The number of a fault. -/
def number : FileFault → Nat
  | notFound => 2
  | notADirectory => 20
  | isADirectory => 21
  | nameTooLong => 36
  | noRoom => 28
  | badCharacter => 22
  | other number _ => number

/-- The fault of a number, which the system has words for. -/
def ofNumber (number : Nat) (message : String) : FileFault :=
  match number with
  | 2 => notFound
  | 20 => notADirectory
  | 21 => isADirectory
  | 28 => noRoom
  | 36 => nameTooLong
  | _ => other number message

/-- Whether a fault tells no more than that there is no file at the path. -/
def isAbsence : FileFault → Bool
  | notFound | notADirectory | isADirectory | badCharacter => true
  | nameTooLong | noRoom | other .. => false

/-- A fault with its number. -/
def describeAlone (f : FileFault) : List Char :=
  "[Errno ".toList ++ Numeral.writeNat f.number ++ "] ".toList ++ f.message.toList

/--
A fault with its number and the path. A path that cannot be written down is not shown, nor is one
that was found and could be opened.
-/
def describe (f : FileFault) (p : Path) : List Char :=
  match f with
  | badCharacter => f.message.toList
  | noRoom => f.describeAlone
  | _ => f.describeAlone ++ ": ".toList ++ Quoted.ofText p.toText

end FileFault

/-- What stands at a place of a file tree. -/
inductive FileEntry where
  | file (content : Bytes)
  | directory
  /-- A device that holds nothing, and from which all that is written to it is gone. -/
  | device
  deriving DecidableEq, Repr

/-- The names that lead to a place from the root. -/
abbrev Location := List (List Char)

/--
The files, directories and devices of a system, with the working directory. The directories around
an entry and around the working directory are implied.
-/
structure FileTree where
  base : Location := []
  entries : List (Location × FileEntry) := []
  deriving DecidableEq, Repr

namespace FileTree

/-! ## Following paths -/

/-- What stands at a location. -/
def find? (t : FileTree) (location : Location) : Option FileEntry :=
  match t.entries.find? fun e => e.1 == location with
  | some (_, entry) => some entry
  | none =>
    if location.isPrefixOf t.base || t.entries.any (fun e => location.isPrefixOf e.1) then
      some .directory
    else none

/-- The greatest length of a name in bytes. -/
def nameLimit : Nat := 255

/-- The length of a path in bytes from which on no path is followed. -/
def pathLimit : Nat := 4096

/-- The number of bytes of a name. -/
def byteLength (name : List Char) : Nat := name.foldr (fun c n => c.utf8Size + n) 0

/--
Goes from a directory to the place of a name in it, whether something stands there or not. The root
is the directory around itself.
-/
def enter (t : FileTree) (location : Location) (name : List Char) : Except FileFault Location :=
  match t.find? location with
  | none => .error .notFound
  | some (.file _) | some .device => .error .notADirectory
  | some .directory =>
    if nameLimit < byteLength name then .error .nameTooLong
    else .ok (if name = ['.', '.'] then location.dropLast else location ++ [name])

/-- The location that a path leads to, whether something stands there or not. -/
def follow (t : FileTree) (p : Path) : Except FileFault Location :=
  if p.toText.contains '\x00' then .error .badCharacter
  else if pathLimit ≤ byteLength p.toText then .error .nameTooLong
  else p.names.foldlM t.enter (if p.root = .relative then t.base else [])

/-! ## Reading and writing -/

/-- The content of the file at a path. -/
def read (t : FileTree) (p : Path) : Except FileFault Bytes := do
  match t.find? (← t.follow p) with
  | none => .error .notFound
  | some .directory => .error .isADirectory
  | some .device => .ok []
  | some (.file content) => .ok content

/-- A tree with a content for a file, which is new or takes the place of what was there. -/
def put (t : FileTree) (location : Location) (content : Bytes) : FileTree :=
  { t with entries := (location, .file content) :: t.entries.filter fun e => e.1 != location }

/-- A content that was put is found. -/
@[simp] theorem find?_put (t : FileTree) (location : Location) (content : Bytes) :
    (t.put location content).find? location = some (.file content) := by
  simp [put, find?]

/-- Writes the file at a path, for which there has to be a directory. -/
def write (t : FileTree) (p : Path) (content : Bytes) : Except FileFault FileTree := do
  let location ← t.follow p
  match t.find? location with
  | some .directory => .error .isADirectory
  | some .device => .ok t
  | some (.file _) | none => .ok (t.put location content)

/--
The files below the working directory of a tree whose content another tree does not have at the same
place. Their locations are counted from the working directory.
-/
def changes (before after : FileTree) : List (Location × Bytes) :=
  after.entries.filterMap fun
    | (location, .file content) =>
      if after.base.isPrefixOf location && before.find? location != some (.file content) then
        some (location.drop after.base.length, content)
      else none
    | _ => none

/-! ## Systems -/

/-- Directories that every system has. -/
def standardDirectories : List String :=
  ["/bin", "/boot", "/dev", "/etc", "/home", "/lib", "/media", "/mnt", "/opt", "/proc", "/run",
    "/sbin", "/srv", "/sys", "/tmp", "/usr/bin", "/usr/lib", "/usr/local", "/usr/sbin",
    "/usr/share", "/var/cache", "/var/lib", "/var/log", "/var/tmp"]

/--
The device that every system has. There are others, but what is read from those has no end or is
never the same.
-/
def nullDevice : String := "/dev/null"

/-- The location that a text stands for, counted from the root. -/
def locationOf (text : String) : Location := (Path.ofString text).names

/-- What every system has. -/
def standardEntries : List (Location × FileEntry) :=
  standardDirectories.map (fun text => (locationOf text, .directory))
    ++ [(locationOf nullDevice, .device)]

/--
A system with a working directory of its own among the temporary ones, which holds the entries that
are given.
-/
def ofWorkingDirectory (entries : List (Location × FileEntry)) : FileTree :=
  let base := locationOf "/tmp/work"
  { base, entries := entries.map (fun (location, entry) => (base ++ location, entry))
      ++ standardEntries }

end FileTree

end Arith
