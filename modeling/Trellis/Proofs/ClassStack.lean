import Trellis.Component.Template
import Trellis.Proofs.Placement

/-!
# The class of the element around

A template is built from the top down, and a pseudo-class styles the element it stands in.  `visitAll` builds the same
template with one stack of the classes of the open elements for the whole tree, on which a pseudo-class looks at the
top; it fails where the stack is empty.  On the nodes of a document it never does, it leaves the stack as it was, and it
gives what `buildAll` gives (`visitAll_eq`).
-/

namespace Trellis.Component

/-! ### Elements -/

/-- An element before its properties: its class is given. -/
def started (sheet : Sheet) (kind : Text) (tag : Option Text) : Draft where
  attributes := [⟨"class", some (sheet.nextClass kind tag).1, false⟩]
  sheet := (sheet.nextClass kind tag).2.addDefaults (sheet.nextClass kind tag).1 kind

/-- An element after its properties. -/
def drafted (sheet : Sheet) (kind : Text) (tag : Option Text) (properties : List Property) : Draft :=
  properties.foldl (Draft.apply kind (sheet.nextClass kind tag).1) (started sheet kind tag)

/-- The attributes of an element, with its inline style. -/
def Draft.allAttributes (d : Draft) : List Attribute :=
  if d.inlineStyles.isEmpty then d.attributes
  else d.attributes ++ [⟨":style", some (renderStyleMap d.inlineStyles), true⟩]

/-- The template node of an element. -/
def Draft.element (d : Draft) (kind : Text) (tag : Option Text) (inner : List Markup) : Markup :=
  .element (Style.resolveTag kind tag) d.allAttributes (if Style.isSelfClosing kind then [] else d.texts ++ inner)
    (Style.isSelfClosing kind)

variable {owner : Option Text} {sheet : Sheet} {kind : Text} {tag : Option Text} {properties : List Property}
  {cs : List Node} {l : Location}

theorem build_element :
    build owner sheet (.element kind tag properties cs l) =
      ([(drafted sheet kind tag properties).element kind tag
          (buildAll (some (sheet.nextClass kind tag).1) (drafted sheet kind tag properties).sheet cs).1],
        (buildAll (some (sheet.nextClass kind tag).1) (drafted sheet kind tag properties).sheet cs).2) := by
  have hdraft : properties.foldl (Draft.apply kind (sheet.nextClass kind tag).1)
      { attributes := [⟨"class", some (sheet.nextClass kind tag).1, false⟩]
        sheet := (sheet.nextClass kind tag).2.addDefaults (sheet.nextClass kind tag).1 kind } =
      drafted sheet kind tag properties := rfl
  rw [build]
  simp only [hdraft]
  unfold Draft.element Draft.allAttributes
  by_cases h : (drafted sheet kind tag properties).inlineStyles.isEmpty = true
  · rw [if_pos h, if_pos h]
  · rw [if_neg h, if_neg h]
    rfl

/-! ### A stack of classes -/

/-- What a visitor carries: the classes of the open elements, innermost first, and the sheet. -/
structure Walk where
  classes : List Text := []
  sheet : Sheet := {}
  deriving DecidableEq, Repr

mutual

/-- Builds a node with the stack of classes; a pseudo-class needs one on it. -/
def visit (w : Walk) : Node → Option (List Markup × Walk)
  | .element kind tag properties children _ =>
    let draft := drafted w.sheet kind tag properties
    (visitAll ⟨(w.sheet.nextClass kind tag).1 :: w.classes, draft.sheet⟩ children).map fun (inner, w) =>
      ([draft.element kind tag inner], { w with classes := w.classes.tail })
  | .pseudo selector properties _ =>
    match w.classes with
    | [] => none
    | cls :: _ =>
      let declarations := properties.filterMap pseudoDeclaration?
      some ([], { w with sheet := w.sheet.declare ('.' :: cls ++ ":" ++ selector) declarations })
  | .condition branch children _ =>
    (visitAll w children).map fun (inner, w) => ([.element "template" [branchAttribute branch] inner false], w)
  | .loop item index collection key children _ =>
    (visitAll w children).map fun (inner, w) =>
      ([.element "template" (loopAttributes item index collection key) inner false], w)

/-- Builds several nodes with the stack of classes. -/
def visitAll (w : Walk) : List Node → Option (List Markup × Walk)
  | [] => some ([], w)
  | n :: ns => (visit w n).bind fun (first, w) => (visitAll w ns).map fun (rest, w) => (first ++ rest, w)

end

mutual

theorem visit_eq : ∀ (n : Node) {w : Walk} {inElement : Bool} {previous : Option Node},
    n.Sound inElement previous → (inElement = true → w.classes ≠ []) →
      visit w n = some ((build w.classes.head? w.sheet n).1, { w with sheet := (build w.classes.head? w.sheet n).2 })
  | .element kind tag properties children l, w, inElement, previous, h, hstack => by
    have hchildren := visitAll_eq children
      (w := ⟨(w.sheet.nextClass kind tag).1 :: w.classes, (drafted w.sheet kind tag properties).sheet⟩) h
      (fun _ => by simp)
    rw [visit, build_element, hchildren]
    rfl
  | .pseudo selector properties l, w, inElement, previous, h, hstack => by
    obtain ⟨classes, sheet⟩ := w
    cases classes with
    | nil => exact absurd rfl (hstack h)
    | cons cls classes => rfl
  | .condition branch children l, w, inElement, previous, h, hstack => by
    have hsound : Node.SoundAll false none children := Node.soundAll_children h
    rw [visit, build, visitAll_eq children hsound (by simp)]
    rfl
  | .loop item index collection key children l, w, inElement, previous, h, hstack => by
    rw [visit, build, visitAll_eq children h (by simp)]
    rfl

/-- **The stack of classes is never empty where it is needed**, and the template is the one that `buildAll` gives. -/
theorem visitAll_eq : ∀ (ns : List Node) {w : Walk} {inElement : Bool} {previous : Option Node},
    Node.SoundAll inElement previous ns → (inElement = true → w.classes ≠ []) →
      visitAll w ns = some ((buildAll w.classes.head? w.sheet ns).1,
        { w with sheet := (buildAll w.classes.head? w.sheet ns).2 })
  | [], w, inElement, previous, h, hstack => rfl
  | n :: ns, w, inElement, previous, h, hstack => by
    rw [visitAll, buildAll, visit_eq n h.1 hstack, Option.bind_some]
    simp only
    rw [visitAll_eq ns (w := { w with sheet := (build w.classes.head? w.sheet n).2 }) h.2 hstack]
    rfl

end

end Trellis.Component
