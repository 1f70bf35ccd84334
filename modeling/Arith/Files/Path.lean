/-!
# Paths

A path is a root and a list of names. Empty names and names of one dot say nothing and are dropped;
a name of two dots stays, since what it means depends on the directory before it. A path that
begins with exactly two slashes keeps both.
-/

namespace Arith

/-- Where a path begins. -/
inductive Path.Root where
  /-- In the working directory. -/
  | relative
  | slash
  | doubleSlash
  deriving DecidableEq, Repr

/-- A root and the names below it. -/
structure Path where
  root : Path.Root := .relative
  names : List (List Char) := []
  deriving DecidableEq, Repr

namespace Path

/-- The pieces of a text between slashes. -/
def pieces : List Char → List (List Char)
  | [] => [[]]
  | '/' :: rest => [] :: pieces rest
  | c :: rest =>
    match pieces rest with
    | [] => [[c]]
    | piece :: more => (c :: piece) :: more

/-- The root that a text begins with. -/
def rootOf (text : List Char) : Root :=
  match text.takeWhile (· == '/') with
  | [] => .relative
  | [_, _] => .doubleSlash
  | _ => .slash

/-- The path that a text stands for. -/
def ofText (text : List Char) : Path :=
  { root := rootOf text
    names := (pieces text).filter fun name => !(name.isEmpty || name == ['.']) }

/-- The root as it is shown. -/
def Root.show : Root → List Char
  | relative => []
  | slash => ['/']
  | doubleSlash => ['/', '/']

/-- A path as it is shown: a path that says nothing is a dot. -/
def toText (p : Path) : List Char :=
  if p.root = .relative ∧ p.names = [] then ['.']
  else p.root.show ++ ['/'].intercalate p.names

/-- The path of the directory that a path lies in. -/
def parent (p : Path) : Path := { p with names := p.names.dropLast }

/-- The path of a name in a directory. -/
def child (p : Path) (name : List Char) : Path := { p with names := p.names ++ [name] }

/-- The path that a string stands for. -/
def ofString (s : String) : Path := ofText s.toList

/-- A path as a string. -/
def toString (p : Path) : String := String.ofList p.toText

@[simp] theorem parent_child (p : Path) (name : List Char) : (p.child name).parent = p := by
  simp [parent, child]

end Path

end Arith
