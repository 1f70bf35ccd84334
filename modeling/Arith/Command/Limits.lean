import Arith.Command.Arguments
import Arith.Expr
import Arith.Toml.Limits

/-!
# Limits of a host

A host may run out of room where a run goes into something nested: where it renders an expression,
where it reads the values of a configuration, and where it writes one of them into a message. All
else that a run does takes the same room however large its input is.
-/

namespace Arith.Command

/-- What a host has no room for. There are no limits by default. -/
structure Limits (ε : Type) extends Toml.Limits ε where
  /-- What stands in the way of rendering an expression in a format, indented or not. -/
  rendering : Format → Bool → Expr → Option ε := fun _ _ _ => none

/-- The limits of a host that goes only so deep into what is nested. -/
def Limits.ofDepth (deepest : Nat) : Limits Unit where
  reading n _ := if deepest < n.lists + n.tables then some () else none
  writing depth _ := if deepest < depth then some () else none
  rendering _ _ e := if deepest < e.depth then some () else none

end Arith.Command
