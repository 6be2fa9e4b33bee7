import Trellis.Markup.Escape

/-!
# Literals

The value of a literal block: a scalar written as it stands, a list, or an object whose entries keep their
order. `render` writes it on one line.
-/

namespace Trellis

inductive Literal where
  | scalar (text : Text)
  | list (items : List Literal)
  | object (entries : List (Text × Literal))
  deriving Repr, BEq, Inhabited

namespace Literal

mutual

/-- The literal on one line. -/
def render : Literal → Text
  | .scalar t => t
  | .list items => "[" ++ Text.join ", " (renderItems items) ++ "]"
  | .object [] => "\x7b\x7d"
  | .object (e :: es) => "\x7b " ++ Text.join ", " (renderEntries (e :: es)) ++ " \x7d"

def renderItems : List Literal → List Text
  | [] => []
  | l :: ls => render l :: renderItems ls

/-- The entries of an object, each rendered as `key: value`. -/
def renderEntries : List (Text × Literal) → List Text
  | [] => []
  | (k, l) :: es => (Escape.objectKey k ++ ": " ++ render l) :: renderEntries es

end

end Literal

end Trellis
