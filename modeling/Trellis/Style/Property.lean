import Trellis.Number
import Trellis.Text.Blank
import Trellis.Text.Word

/-!
# Element kinds and style properties

The tables behind the component backend: the tag and the default style of an element kind, which property
keys are styles, and how a property becomes a declaration. A purely numeric value gets the unit `px`
unless the declaration takes plain numbers.
-/

namespace Trellis.Style

/-- A name and its value. -/
abbrev Declaration := Text × Text

/-- Tags of the built-in element kinds; any other kind is its own tag. -/
def tags : List (Text × Text) :=
  [("VBox", "div"), ("HBox", "div"), ("Text", "span"), ("Button", "button"), ("Input", "input"),
    ("Image", "img"), ("Title", "h1")]

/-- Declarations added once to every class of a kind. -/
def defaults (kind : Text) : List Declaration :=
  if kind = "VBox" then [("display", "flex"), ("flex-direction", "column")]
  else if kind = "HBox" then [("display", "flex"), ("flex-direction", "row"), ("align-items", "center")]
  else if kind = "Grid" then [("display", "grid"), ("gap", "10px")]
  else []

/-- Kinds that have no content. -/
def isSelfClosing (kind : Text) : Bool := kind = "Input" || kind = "Image"

/-- Kinds on which a dynamic `value` is bound in both directions. -/
def isInput (kind : Text) : Bool := kind = "Input"

/-- The tag of an element: a non-empty explicit one, else the one of its kind. -/
def resolveTag (kind : Text) (explicit : Option Text) : Text :=
  match explicit with
  | none | some [] => (tags.lookup kind).getD kind
  | some t => t

/-- Keys of the box model. -/
def boxKeys : List Text :=
  ["padding", "paddingTop", "paddingBottom", "paddingLeft", "paddingRight",
    "margin", "marginTop", "marginBottom", "marginLeft", "marginRight",
    "width", "height", "maxWidth", "minWidth", "maxHeight", "minHeight", "gap"]

/-- Keys of colours, borders and fonts. -/
def appearanceKeys : List Text :=
  ["color", "background", "backgroundColor", "bg", "opacity", "border", "borderRadius", "radius",
    "shadow", "boxShadow", "cursor", "outline", "textDecoration", "decoration", "fontStyle", "style",
    "size", "fontSize", "weight", "fontWeight", "textAlign", "lineHeight", "fontFamily"]

/-- Keys of layout and motion. -/
def layoutKeys : List Text :=
  ["display", "flex", "flexDirection", "align", "alignItems", "justify", "justifyContent",
    "position", "top", "left", "right", "bottom", "zIndex", "overflow", "overflowY", "overflowX",
    "transition", "transform", "animation"]

def keys : List Text := boxKeys ++ appearanceKeys ++ layoutKeys

/-- The key names a style. -/
def isStyle (key : Text) : Bool := keys.contains key

/-- Short keys and the declarations they stand for. -/
def aliases : List (Text × Text) :=
  [("size", "font-size"), ("shadow", "box-shadow"), ("justify", "justify-content"),
    ("align", "align-items"), ("radius", "border-radius"), ("weight", "font-weight"),
    ("bg", "background"), ("decoration", "text-decoration"), ("style", "font-style")]

/-- Declarations whose numbers take no unit. -/
def unitless : List Text :=
  ["opacity", "z-index", "font-weight", "line-height", "flex", "order", "flex-grow", "flex-shrink"]

/-- Each ASCII capital becomes a hyphen and its small letter. -/
def kebab (t : Text) : Text :=
  t.flatMap fun c => if Text.isAsciiUpper c then ['-', Char.ofNat (c.toNat + 32)] else [c]

/-- The declaration name of a key: its alias, hyphenated. -/
def declarationName (key : Text) : Text := kebab ((aliases.lookup key).getD key)

/-- The declaration of a style property; a missing value is empty. -/
def declaration (key : Text) (value : Option Text) : Declaration :=
  let name := declarationName key
  let text := Text.trim (value.getD [])
  if !text.isEmpty && Numeral.isNumeral text && !unitless.contains name then (name, text ++ "px")
  else (name, text)

end Trellis.Style
