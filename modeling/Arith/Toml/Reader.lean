import Arith.Toml.Limits
import Arith.Toml.Scalar

/-!
# Statements of TOML

A configuration is a list of statements, one a line: an entry, or the header of a table or of the
next item of an array of tables. Reading stops at the first statement that is malformed; the
statements before it are kept, since what they do comes first.

An inline table is put together while it is read: none of its names may be given twice, and lists
and tables in it cannot be added to.

A host has to have room for every value, on top of the lists and inline tables around that. If it
has none, reading stops there as it does at a fault.

## Termination

Lists and tables hold values, and values lists and tables. Every reading ends behind where it began
(`shorter`), so the characters that are left bound the nesting.
-/

namespace Arith.Toml

/-- Whether a key is another one or leads further on from it. -/
def Key.extends (k other : Key) : Bool := other.isPrefixOf k

/-- Whether a value holds others. -/
def Value.isContainer : Value → Bool
  | .array _ => true
  | .table _ => true
  | _ => false

/-- Adds an entry to a table that does not have its name. -/
def Table.addNew? (name : String) (value : Value) (t : Table) : Option Table :=
  if (t.find? name).isSome then none else some (t.add name value)

/-- An inline table that is being read: its entries, and the keys that nothing can be added to. -/
structure InlineTable where
  entries : Table := []
  closed : List Key := []

namespace InlineTable

/-- Adds an entry. -/
def add (t : InlineTable) (k : Key) (value : Value) : Except Fault InlineTable :=
  if t.closed.any k.extends then .error .malformed
  else match k.getLast? with
    | none => .error .malformed
    | some name =>
      match Table.modify? false (Table.addNew? name value) k.dropLast t.entries with
      | none => .error .malformed
      | some entries =>
        .ok ⟨entries, if value.isContainer then k :: t.closed else t.closed⟩

end InlineTable

/-- A key with the equals sign behind it, and white space behind that. -/
def keyAndEquals (s : List Char) : Read Key :=
  match key s with
  | .ok (k, '=' :: rest) => .ok (k, skipSpaces rest)
  | .ok _ => .error .malformed
  | .error f => .error f

/-- White space, line ends and comments are skipped; what is left is not longer. -/
def skipped (s : List Char) : Except Fault { rest : List Char // rest.length ≤ s.length } :=
  match skipGaps s with
  | .error f => .error f
  | .ok rest => if h : rest.length ≤ s.length then .ok ⟨rest, h⟩ else .error .malformed

/--
The place of the next item of a list or of its end, behind a comma and what is skipped after it.
-/
def nextItem (s : List Char) : Except Fault { rest : List Char // rest.length < s.length } :=
  match s with
  | ',' :: more =>
    match skipped more with
    | .error f => .error f
    | .ok ⟨rest, h⟩ => .ok ⟨rest, Nat.lt_succ_of_le h⟩
  | _ => .error .malformed

/--
The place of the next entry of an inline table, behind a comma and the white space around that.
-/
def nextEntry? (s : List Char) : Option { rest : List Char // rest.length < s.length } :=
  match h : skipSpaces s with
  | ',' :: more =>
    have h1 : (',' :: more).length ≤ s.length := h ▸ length_dropWhile_le isSpace s
    some ⟨skipSpaces more, Nat.lt_of_le_of_lt (length_dropWhile_le isSpace more) h1⟩
  | _ => none

variable {ε : Type}

/-- A reader for which a host may have no room. -/
abbrev Nested (ε α : Type) := Except (Stop ε) (α × List Char)

/-- A reader for which every host has room. -/
def Read.nested {α : Type} (r : Read α) : Nested ε α := r.mapError .fault

mutual

/-- A value. -/
def value (l : Limits ε) (n : Nesting) (s : List Char) : Nested ε Value :=
  match l.reading n s with
  | some e => .error (.limit e)
  | none =>
    match s with
    | '[' :: rest =>
      match skipped rest with
      | .error f => .error (.fault f)
      | .ok ⟨inner, _h⟩ =>
        match afterChar? ']' inner with
        | some behind => .ok (.array [], behind)
        | none => items l n.inList [] inner
    | '\x7b' :: rest =>
      match afterChar? '\x7d' (skipSpaces rest) with
      | some behind => .ok (.table [], behind)
      | none => entries l n.inTable {} (skipSpaces rest)
    | _ => (scalar s).nested
termination_by (s.length, 0)
decreasing_by
  · exact Prod.Lex.left _ _ (Nat.lt_succ_of_le _h)
  · exact Prod.Lex.left _ _ (Nat.lt_succ_of_le (length_dropWhile_le isSpace rest))

/-- The items of a list from a value on, behind those that were read. -/
def items (l : Limits ε) (n : Nesting) (before : List Value) (s : List Char) : Nested ε Value :=
  match shorterOr (.fault .malformed) s (value l n s) with
  | .error stop => .error stop
  | .ok ⟨(item, rest), _h1⟩ =>
    match skipped rest with
    | .error f => .error (.fault f)
    | .ok ⟨rest, _h2⟩ =>
      match afterChar? ']' rest with
      | some behind => .ok (.array (before ++ [item]), behind)
      | none =>
        match nextItem rest with
        | .error f => .error (.fault f)
        | .ok ⟨next, _h3⟩ =>
          match afterChar? ']' next with
          | some behind => .ok (.array (before ++ [item]), behind)
          | none => items l n (before ++ [item]) next
termination_by (s.length, 1)
decreasing_by
  · exact Prod.Lex.right _ (by decide)
  · exact Prod.Lex.left _ _ (Nat.lt_trans _h3 (Nat.lt_of_le_of_lt _h2 _h1))

/-- The entries of an inline table from a key on, behind those that were read. -/
def entries (l : Limits ε) (n : Nesting) (before : InlineTable) (s : List Char) :
    Nested ε Value :=
  match shorter s (keyAndEquals s) with
  | .error f => .error (.fault f)
  | .ok ⟨(k, rest), _h1⟩ =>
    match shorterOr (.fault .malformed) rest (value l n rest) with
    | .error stop => .error stop
    | .ok ⟨(v, rest), _h2⟩ =>
      match before.add k v with
      | .error f => .error (.fault f)
      | .ok t =>
        match afterChar? '\x7d' (skipSpaces rest) with
        | some behind => .ok (.table t.entries, behind)
        | none =>
          match nextEntry? rest with
          | some ⟨next, _h3⟩ => entries l n t next
          | none => .error (.fault .malformed)
termination_by (s.length, 1)
decreasing_by
  · exact Prod.Lex.left _ _ _h1
  · exact Prod.Lex.left _ _ (Nat.lt_trans _h3 (Nat.lt_trans _h2 _h1))

end

/-! ## Statements -/

/-- One line of a configuration. -/
inductive Statement where
  | entry (k : Key) (value : Value)
  /-- The entries that follow belong to a table. -/
  | table (k : Key)
  /-- The entries that follow belong to a new item of an array of tables. -/
  | item (k : Key)

/-- An entry. -/
def entry (l : Limits ε) (s : List Char) : Nested ε Statement :=
  match keyAndEquals s with
  | .error f => .error (.fault f)
  | .ok (k, rest) => (value l {} rest).map fun (v, rest) => (.entry k v, rest)

/-- The header of a table, behind its opening bracket. -/
def tableHeader (s : List Char) : Read Statement :=
  match key (skipSpaces s) with
  | .ok (k, ']' :: rest) => .ok (.table k, rest)
  | .ok _ => .error .malformed
  | .error f => .error f

/-- The header of an item, behind its opening brackets. -/
def itemHeader (s : List Char) : Read Statement :=
  match key (skipSpaces s) with
  | .ok (k, ']' :: ']' :: rest) => .ok (.item k, rest)
  | .ok _ => .error .malformed
  | .error f => .error f

/-- The characters of the next line, behind white space and perhaps a comment. -/
def lineEnd (s : List Char) : Except Fault (List Char) :=
  match skipComment (skipSpaces s) with
  | .ok [] => .ok []
  | .ok ('\n' :: rest) => .ok rest
  | .ok _ => .error .malformed
  | .error f => .error f

/-- The statement of a line, if it has one. -/
def statement? (l : Limits ε) (s : List Char) : Option (Nested ε Statement) :=
  match s with
  | '[' :: '[' :: rest => some (itemHeader rest).nested
  | '[' :: rest => some (tableHeader rest).nested
  | c :: _ => if isKeyChar c || c == '"' || c == '\'' then some (entry l s) else none
  | [] => none

/-- A line with its statement, if it has one, and the characters of the next line. -/
def line (l : Limits ε) (s : List Char) : Nested ε (Option Statement) :=
  let s := skipSpaces s
  match statement? l s with
  | none => Read.nested ((lineEnd s).map fun rest => (none, rest))
  | some (.error stop) => .error stop
  | some (.ok (statement, rest)) =>
    Read.nested ((lineEnd rest).map fun rest => (some statement, rest))

/-- The statements of a text, and why it is not read to its end, if it is not. -/
def statements (l : Limits ε) (s : List Char) : List Statement × Option (Stop ε) :=
  match s with
  | [] => ([], none)
  | c :: rest =>
    match shorterOr (.fault .malformed) (c :: rest) (line l (c :: rest)) with
    | .error stop => ([], some stop)
    | .ok ⟨(found, behind), _h⟩ =>
      let (more, stop) := statements l behind
      (found.toList ++ more, stop)
termination_by s.length
decreasing_by exact _h

end Arith.Toml
