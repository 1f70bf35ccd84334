import Arith.Toml.Text
import Arith.Toml.Value

/-!
# Limits of a host for nested values

Lists and tables can be nested as deep as one likes, but a host may have room for so much only: to
read a value that stands in others, and to write one that holds others. What a host says when it
runs out of room is of a type of its own, which is empty for a host without limits.
-/

namespace Arith.Toml

/-- Why something is not done with values: a fault in them, or a limit of the host. -/
inductive Stop (ε : Type) where
  | fault (f : Fault)
  | limit (e : ε)

/-- The lists and the inline tables that a value stands in. -/
structure Nesting where
  lists : Nat := 0
  tables : Nat := 0

namespace Nesting

/-- The nesting of the items of a list. -/
def inList (n : Nesting) : Nesting := { n with lists := n.lists + 1 }

/-- The nesting of the values of an inline table. -/
def inTable (n : Nesting) : Nesting := { n with tables := n.tables + 1 }

end Nesting

/-- What a host has no room for. There are no limits by default. -/
structure Limits (ε : Type) where
  /-- What stands in the way of reading the value that a text begins with. -/
  reading : Nesting → List Char → Option ε := fun _ _ => none
  /-- What stands in the way of writing a value that stands in so many others. -/
  writing : Nat → Value → Option ε := fun _ _ => none

/-! ## Values that have no text -/

variable {ε : Type}

mutual

/--
What is met first on the way through a value that is written: an integer of more digits than the
limit, or a limit of the host.
-/
def Value.stop? (l : Limits ε) (depth : Nat) (v : Value) : Option (Stop ε) :=
  match l.writing depth v with
  | some e => some (.limit e)
  | none =>
    match v with
    | .integer n =>
      if n.natAbs < Nat.pow 10 Numeral.digitLimit then none else some (.fault .numeralTooLong)
    | .array items => itemsStop? l (depth + 1) items
    | .table entries => entriesStop? l (depth + 1) entries
    | _ => none

/-- What is met first on the way through the items of a list. -/
def itemsStop? (l : Limits ε) (depth : Nat) : List Value → Option (Stop ε)
  | [] => none
  | item :: rest => (item.stop? l depth).or (itemsStop? l depth rest)

/-- What is met first on the way through the values of a table. -/
def entriesStop? (l : Limits ε) (depth : Nat) : List (String × Value) → Option (Stop ε)
  | [] => none
  | (_, value) :: rest => (value.stop? l depth).or (entriesStop? l depth rest)

end

end Arith.Toml
