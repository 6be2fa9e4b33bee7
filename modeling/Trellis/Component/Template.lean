import Trellis.Component.Sheet
import Trellis.Document.Basic

/-!
# Templates

The markup tree of a document becomes a template: an element for every element, condition and loop. Properties
become text, event handlers, bindings, attributes, rules of the class, or an inline style. A pseudo-class has no
node of its own; its styles go to a rule of the class of the element around it.
-/

namespace Trellis.Component

/-- The event of a property key: `on` and at least one more character. -/
def event? (key : Text) : Option Text := do
  let rest ← Text.after? "on" key
  match rest with
  | c :: r => some (Text.lower [c] ++ r)
  | [] => none

/-- What the properties of an element have given so far. -/
structure Draft where
  attributes : List Attribute
  texts : List Markup := []
  inlineStyles : List (Text × Text) := []
  sheet : Sheet

def Draft.attr (d : Draft) (a : Attribute) : Draft := { d with attributes := d.attributes ++ [a] }

/-- Applies one property of an element. -/
def Draft.apply (kind cls : Text) (d : Draft) (p : Property) : Draft :=
  if p.key = "content" || p.key = "text" then
    match p.value with
    | .flag => d
    | .static v => { d with texts := d.texts ++ [.text v false] }
    | .dynamic e => { d with texts := d.texts ++ [.text e true] }
  else match event? p.key with
    | some event =>
      match p.value with
      | .flag => d.attr ⟨'@' :: event, none, true⟩
      | .static v | .dynamic v => d.attr ⟨'@' :: event, some v, true⟩
    | none =>
      match p.value with
      | .flag => d.attr ⟨p.key, none, false⟩
      | .dynamic e =>
        if p.key = "value" && Style.isInput kind then d.attr ⟨"v-model", some e, true⟩
        else if Style.isStyle p.key then
          { d with inlineStyles := d.inlineStyles ++ [(Style.declarationName p.key, e)] }
        else d.attr ⟨':' :: p.key, some e, true⟩
      | .static v =>
        if Style.isStyle p.key then
          { d with sheet := d.sheet.declare ('.' :: cls) [Style.declaration p.key (some v)] }
        else d.attr ⟨p.key, some v, false⟩

/-- The declaration of a pseudo-class property; a flag gives none. -/
def pseudoDeclaration? (p : Property) : Option Style.Declaration :=
  match p.value with
  | .flag => none
  | .static v => some (Style.declaration p.key (some v))
  | .dynamic e => some (Style.declarationName p.key, Escape.styleBinding e)

/-- The index name of a loop that gives none. -/
def defaultIndex : Text := "_i"

def loopAttributes (item : Text) (index : Option Text) (collection : Text) (key : Option Text) : List Attribute :=
  let index := index.getD defaultIndex
  [⟨"v-for", some ("(" ++ item ++ ", " ++ index ++ ") in " ++ collection), true⟩,
    ⟨":key", some (key.getD index), true⟩]

def branchAttribute : Branch → Attribute
  | .when test => ⟨"v-if", some test, true⟩
  | .otherwise => ⟨"v-else", none, false⟩

mutual

/-- The template nodes of a markup node, inside an element of class `owner`. -/
def build (owner : Option Text) (sheet : Sheet) : Node → List Markup × Sheet
  | .element kind tag properties children _ =>
    let (cls, sheet) := sheet.nextClass kind tag
    let draft := properties.foldl (Draft.apply kind cls)
      { attributes := [⟨"class", some cls, false⟩], sheet := sheet.addDefaults cls kind }
    let draft := if draft.inlineStyles.isEmpty then draft
      else draft.attr ⟨":style", some (renderStyleMap draft.inlineStyles), true⟩
    let (inner, sheet) := buildAll (some cls) draft.sheet children
    let selfClosing := Style.isSelfClosing kind
    let content := if selfClosing then [] else draft.texts ++ inner
    ([.element (Style.resolveTag kind tag) draft.attributes content selfClosing], sheet)
  | .pseudo selector properties _ =>
    match owner with
    | some cls =>
      ([], sheet.declare ('.' :: cls ++ ":" ++ selector) (properties.filterMap pseudoDeclaration?))
    | none => ([], sheet)
  | .condition branch children _ =>
    let (inner, sheet) := buildAll owner sheet children
    ([.element "template" [branchAttribute branch] inner false], sheet)
  | .loop item index collection key children _ =>
    let (inner, sheet) := buildAll owner sheet children
    ([.element "template" (loopAttributes item index collection key) inner false], sheet)

/-- The template nodes of several markup nodes. -/
def buildAll (owner : Option Text) (sheet : Sheet) : List Node → List Markup × Sheet
  | [] => ([], sheet)
  | n :: ns =>
    let (first, sheet) := build owner sheet n
    let (rest, sheet) := buildAll owner sheet ns
    (first ++ rest, sheet)

end

end Trellis.Component
