import Arith.Decimal.Binary64
import Arith.Text.Quoted
import Arith.Toml.Moment

/-!
# Values of a configuration

The values that a TOML text can hold. A table keeps its entries in the order in which they were
first given.
-/

namespace Arith.Toml

/-- A value of a configuration. -/
inductive Value where
  | text (value : String)
  | integer (value : Int)
  | float (value : Binary64)
  | boolean (value : Bool)
  | moment (value : Moment)
  | array (items : List Value)
  | table (entries : List (String × Value))

/-- The text of a value that is one. -/
def Value.text? : Value → Option String
  | .text value => some value
  | _ => none

/-- The entries of a table. -/
abbrev Table := List (String × Value)

/-- A list of names that leads through nested tables. -/
abbrev Key := List String

namespace Table

/-- The value of a name. -/
def find? (t : Table) (name : String) : Option Value :=
  (List.find? (fun entry => entry.1 == name) t).map Prod.snd

/-- Replaces the value of a name, which stays where it is. -/
def replace (t : Table) (name : String) (value : Value) : Table :=
  t.map fun entry => if entry.1 == name then (name, value) else entry

/-- Adds an entry at the end. -/
def add (t : Table) (name : String) (value : Value) : Table := t ++ [(name, value)]

/--
Changes the table at the end of a key. Tables that are missing on the way are added; an array of
tables stands for its last one if `throughArrays` is set. There is no result if something else
stands on the way, or if the change has none.
-/
def modify? (throughArrays : Bool) (change : Table → Option Table) : Key → Table → Option Table
  | [], t => change t
  | name :: rest, t =>
    match t.find? name with
    | none => (modify? throughArrays change rest []).map fun inner => t.add name (.table inner)
    | some (.table inner) =>
      (modify? throughArrays change rest inner).map fun inner => t.replace name (.table inner)
    | some (.array items) =>
      match throughArrays, items.getLast? with
      | true, some (.table inner) =>
        (modify? throughArrays change rest inner).map fun inner =>
          t.replace name (.array (items.dropLast ++ [.table inner]))
      | _, _ => none
    | some _ => none

/--
The table that a name stands for. A table without that name, or with another value, has an empty
one.
-/
def within (t : Table) (name : String) : Table :=
  match t.find? name with
  | some (.table inner) => inner
  | _ => []

end Table

/-! ## Text -/

mutual

/-- A value as it stands in a list or a table. -/
def Value.nestedText : Value → List Char
  | .text s => Quoted.ofText s.toList
  | .integer n => Numeral.write n
  | .float x => x.toText
  | .boolean b => if b then "True".toList else "False".toList
  | .moment m => m.toPartsText
  | .array items => '[' :: itemsText items ++ [']']
  | .table entries => '\x7b' :: entriesText entries ++ ['\x7d']

/-- The items of a list with commas between them. -/
def itemsText : List Value → List Char
  | [] => []
  | [item] => item.nestedText
  | item :: rest => item.nestedText ++ [',', ' '] ++ itemsText rest

/-- The entries of a table with commas between them. -/
def entriesText : List (String × Value) → List Char
  | [] => []
  | [(name, value)] => Quoted.ofText name.toList ++ [':', ' '] ++ value.nestedText
  | (name, value) :: rest =>
    Quoted.ofText name.toList ++ [':', ' '] ++ value.nestedText ++ [',', ' '] ++ entriesText rest

end

/-- A value on its own: a text without quotes, and a moment for people. -/
def Value.toText : Value → List Char
  | .text s => s.toList
  | .moment m => m.toText
  | value => value.nestedText

end Arith.Toml
