import Arith.Command.Limits
import Arith.Expr.Outline
import Arith.Expr.Parser
import Arith.Expr.Sexpr
import Arith.Token.Listing

/-!
# Renderings

A text is rendered as the listing of its tokens, or as the expression that it is: an S-expression
or an outline. All formats end their last line. A rendering is whole or there is none: what was
listed before an error is dropped.

A rendering is made in two steps. All errors of a text are met on the way to its draft, and a host
runs out of room only behind that.
-/

namespace Arith.Command

/-- Why a text has no rendering. -/
inductive RenderFault where
  | parse (f : Parser.Failure)
  | listing (f : ListingFault)
  deriving DecidableEq, Repr

/--
What an error of a text says and where it stands. A fault that is no error of the text has no
place.
-/
def RenderFault.error? : RenderFault → Option (String × Span)
  | parse (.error e) => some (e.message, e.span)
  | parse (.fault _) => none
  | listing (.error e) => some (e.message, e.span)
  | listing _ => none

namespace Format

/-- The format of a rendering for which perhaps one is named: the S-expression if none is. -/
def orDefault (named? : Option Format) : Format := named?.getD .sexpr

/-- Whether a format renders the expression and not the tokens. -/
def isOfExpr : Format → Bool
  | tokens => false
  | _ => true

/-- The rendering of an expression. -/
def renderExpr (f : Format) (indent : Bool) (e : Expr) : List Char :=
  match f with
  | tree => e.outline
  | _ => e.toSexpr indent ++ ['\n']

end Format

/-- What a rendering is made of: the expression of a text, or the listing of its tokens. -/
inductive Draft where
  | expr (e : Expr)
  | listing (text : List Char)
  deriving DecidableEq, Repr

namespace Format

/-- What the rendering of a text is made of. -/
def draft (f : Format) (content : Bytes) : Except RenderFault Draft :=
  if f.isOfExpr then
    match Expr.parse content with
    | .ok e => .ok (.expr e)
    | .error failure => .error (.parse failure)
  else
    match listTokens content with
    | (text, none) => .ok (.listing text)
    | (_, some fault) => .error (.listing fault)

/-- The rendering that is made of a draft. -/
def finish (f : Format) (indent : Bool) : Draft → List Char
  | .expr e => f.renderExpr indent e
  | .listing text => text

/-- The rendering of a text. -/
def render (f : Format) (indent : Bool) (content : Bytes) : Except RenderFault (List Char) :=
  (f.draft content).map (f.finish indent)

end Format

/-- What stands in the way of making a rendering of a draft. A listing is made already. -/
def Limits.onDraft {ε : Type} (l : Limits ε) (f : Format) (indent : Bool) : Draft → Option ε
  | .expr e => l.rendering f indent e
  | .listing _ => none

end Arith.Command
