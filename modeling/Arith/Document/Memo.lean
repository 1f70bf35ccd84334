/-!
# Remembered values

A memo is empty until its value is asked for the first time; then the value is made and kept. A
value that cannot be made is not kept, and the next time it is tried again.
-/

namespace Arith

/-- A value that is made at most once. -/
structure Memo (α : Type) where
  value? : Option α := none
  deriving DecidableEq, Repr

namespace Memo

variable {α ε : Type}

/-- A memo that holds nothing yet. -/
def empty : Memo α := {}

/-- Whether the value was made. -/
def isMade (m : Memo α) : Bool := m.value?.isSome

/-- The value of a memo, which is made now if it was not before, and the memo behind it. -/
def get {M : Type → Type} [Monad M] (m : Memo α) (make : M (Except ε α)) :
    M (Except ε α × Memo α) :=
  match m.value? with
  | some value => pure (.ok value, m)
  | none => do
    match ← make with
    | .ok value => pure (.ok value, ⟨some value⟩)
    | .error e => pure (.error e, m)

/-- The value of a memo whose making cannot fail, and the memo that keeps it. -/
def getOrMake (m : Memo α) (make : Unit → α) : α × Memo α :=
  match m.value? with
  | some value => (value, m)
  | none =>
    let value := make ()
    (value, ⟨some value⟩)

end Memo

end Arith
