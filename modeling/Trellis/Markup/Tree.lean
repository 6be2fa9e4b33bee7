import Trellis.Markup.Escape
import Trellis.Style.Property

/-!
# Markup and style text

The template of a component as a tree, and its style rules, with the one way each is written. Children
stand two spaces deeper than their parent, and nothing is indented above depth zero; an element that holds only text
stays on one line.
-/

namespace Trellis

/-- An attribute. Without a value it is a bare flag; an expression is written with its double quotes
swapped, any other value is escaped. -/
structure Attribute where
  name : Text
  value : Option Text := none
  isExpression : Bool := false
  deriving DecidableEq, Repr

def Attribute.render (a : Attribute) : Text :=
  match a.value with
  | none => a.name
  | some v => a.name ++ "=\"" ++ (if a.isExpression then Escape.inExpression v else Escape.inAttribute v) ++ "\""

/-- A node of the template. -/
inductive Markup where
  | text (content : Text) (isExpression : Bool)
  | element (tag : Text) (attributes : List Attribute) (children : List Markup) (selfClosing : Bool)
  deriving Repr, Inhabited

namespace Markup

def isText : Markup → Bool
  | .text _ _ => true
  | .element _ _ _ _ => false

/-- Text as it stands in the template; an expression is interpolated. -/
def renderText : Markup → Text
  | .text t true => "\x7b\x7b " ++ t ++ " \x7d\x7d"
  | .text t false => Escape.inText t
  | .element _ _ _ _ => []

def openTag (tag : Text) (attributes : List Attribute) (selfClosing : Bool) : Text :=
  "<" ++ Text.join " " (tag :: attributes.map Attribute.render) ++ (if selfClosing then " />" else ">")

/-- The blanks before a line at a depth. -/
def padding (depth : Int) : Text := Text.spaces (2 * depth.toNat)

mutual

def render (depth : Int) : Markup → List Text
  | .text t e => [padding depth ++ renderText (.text t e)]
  | .element tag attributes children selfClosing =>
    let pad := padding depth
    let opening := openTag tag attributes selfClosing
    let closing := "</" ++ tag ++ ">"
    if selfClosing then [pad ++ opening]
    else if children.all isText then [pad ++ opening ++ children.flatMap renderText ++ closing]
    else (pad ++ opening) :: renderAll (depth + 1) children ++ [pad ++ closing]

def renderAll (depth : Int) : List Markup → List Text
  | [] => []
  | m :: ms => render depth m ++ renderAll depth ms

end

end Markup

structure StyleRule where
  selector : Text
  declarations : List Style.Declaration := []
  deriving DecidableEq, Repr

/-- The line of a declaration inside its rule. -/
def Style.renderDeclaration (d : Style.Declaration) : Text := "  " ++ d.1 ++ ": " ++ d.2 ++ ";\n"

/-- The written form of a rule, one declaration a line. -/
def StyleRule.render (r : StyleRule) : Text :=
  r.selector ++ " \x7b\n" ++ r.declarations.flatMap Style.renderDeclaration ++ "\x7d"

/-- The object of an inline style binding. -/
def renderStyleMap (entries : List (Text × Text)) : Text :=
  "\x7b " ++ Text.join ", " (entries.map fun e => Escape.quotedString e.1 ++ ": " ++ e.2) ++ " \x7d"

end Trellis
