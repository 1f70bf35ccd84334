import Arith.Text.Utf8
import Arith.Toml.Reader

/-!
# Configurations

A configuration is the table that the statements of a TOML text build up. Headers name the table
that the entries behind them belong to; a table can be named by one header only, nothing can be
added to a list or table that was given as a value, and tables that dotted keys made cannot be
opened by a later header.
-/

namespace Arith.Toml

/-- What the statements so far have built. -/
structure Build where
  root : Table := []
  /-- The table that entries belong to. -/
  header : Key := []
  /-- Tables that no header can open any more. -/
  opened : List Key := []
  /-- Tables that the next header closes to others. -/
  pending : List Key := []
  /-- Values that nothing can be added to. -/
  closed : List Key := []

namespace Build

/-- Whether nothing can be added at a key. -/
def isClosed (b : Build) (k : Key) : Bool := b.closed.any k.extends

/-- The keys of the tables that lead to the last name of a key. -/
def inner (k : Key) : List Key := (List.range (k.length - 1)).map fun i => k.take (i + 1)

/-- Adds an entry to the table of the last header. -/
def entry (b : Build) (k : Key) (value : Value) : Option Build := do
  let name ← k.getLast?
  let parents := (inner k).map (b.header ++ ·)
  if parents.any b.opened.contains then none
  if b.isClosed (b.header ++ k.dropLast) then none
  let root ← Table.modify? true (Table.addNew? name value) (b.header ++ k.dropLast) b.root
  return { b with
    root
    pending := parents ++ b.pending
    closed := if value.isContainer then (b.header ++ k) :: b.closed else b.closed }

/-- Closes the tables of dotted keys to headers. -/
def settle (b : Build) : Build := { b with opened := b.pending ++ b.opened, pending := [] }

/-- Opens a table. -/
def table (b : Build) (k : Key) : Option Build := do
  let b := b.settle
  if b.opened.contains k || b.isClosed k then none
  let root ← Table.modify? true some k b.root
  return { b with root, header := k, opened := k :: b.opened }

/-- Adds a table to the array of a name. -/
def addItem? (name : String) (t : Table) : Option Table :=
  match t.find? name with
  | none => some (t.add name (.array [.table []]))
  | some (.array items) => some (t.replace name (.array (items ++ [.table []])))
  | some _ => none

/-- Opens a new item of an array of tables, in which all keys are free again. -/
def item (b : Build) (k : Key) : Option Build := do
  let b := b.settle
  if b.isClosed k then none
  let name ← k.getLast?
  let root ← Table.modify? true (addItem? name) k.dropLast b.root
  let free (other : Key) : Bool := !other.extends k
  return { b with
    root
    header := k
    opened := k :: b.opened.filter free
    closed := b.closed.filter free }

/-- Does what a statement says. -/
def step (b : Build) : Statement → Option Build
  | .entry k value => b.entry k value
  | .table k => b.table k
  | .item k => b.item k

end Build

/-- The table that statements build, unless one of them contradicts those before it. -/
def build (statements : List Statement) : Option Table :=
  (statements.foldlM Build.step {}).map Build.root

/-- A text with a line feed for every line end. -/
def joinLineEnds : List Char → List Char
  | '\r' :: '\n' :: rest => '\n' :: joinLineEnds rest
  | c :: rest => c :: joinLineEnds rest
  | [] => []

/--
The configuration that a text stands for. A contradiction comes before whatever stops the reading
behind it.
-/
def read {ε : Type} (l : Limits ε) (text : List Char) : Except (Stop ε) Table :=
  let (statements, stop) := statements l (joinLineEnds text)
  match build statements, stop with
  | none, _ => .error (.fault .malformed)
  | some _, some stop => .error stop
  | some t, none => .ok t

end Arith.Toml
