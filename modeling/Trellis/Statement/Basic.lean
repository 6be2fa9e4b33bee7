import Trellis.Line
import Trellis.Literal.Basic
import Trellis.Location

/-!
# Statements

The statements of function, mount and route bodies. Lines nested under a statement are its body. A response
(`respond`, `respondBlock`) only arises in route bodies, a condition or an assignment only in the others.
-/

namespace Trellis

inductive Statement where
  | comment (text : Text) (location : Location)
  | raw (text : Text) (body : List Statement) (location : Location)
  | assign (target value : Text) (body : List Statement) (location : Location)
  | cond (condition : Text) (body orelse : List Statement) (location : Location)
  | respond (value : Text) (location : Location)
  | respondBlock (block : Literal) (location : Location)
  deriving Repr

namespace Statement

def isResponse : Statement → Bool
  | .respond _ _ | .respondBlock _ _ => true
  | _ => false

/-- Some statement of the list itself answers the request. -/
def hasResponse (ss : List Statement) : Bool := ss.any isResponse

end Statement

end Trellis
