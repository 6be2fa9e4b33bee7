import Mathlib.Data.List.Forall2
import Trellis.Proofs.NodeVisits
import Trellis.Proofs.SyntheticClasses

/-!
# The shape of a template

A template has one element for every element, condition and loop that is not in a self-closing element, in pre-order and
at the same depth, so it is the same forest (`mirrors_buildAll`).  Every element gets a class that is numbered over all
the elements before it, and those that are not shown count too (`gets_classedAll`).  Both follow the building node by
node: the counters of the sheet are the untagged elements so far (`count_buildAll`).
-/

namespace Trellis

/-- Each entry of a list with the entries before it, when `before` comes first. -/
def withBefore {α : Type} (before : List α) : List α → List (List α × α)
  | [] => []
  | a :: l => (before, a) :: withBefore (before ++ [a]) l

theorem withBefore_append {α : Type} (before l l' : List α) :
    withBefore before (l ++ l') = withBefore before l ++ withBefore (before ++ l) l' := by
  induction l generalizing before with
  | nil => simp [withBefore]
  | cons a l ih => simp [withBefore, ih]

theorem mem_of_mem_withBefore {α : Type} {before l : List α} {p : List α × α} (h : p ∈ withBefore before l) :
    p.2 ∈ l := by
  induction l generalizing before with
  | nil => cases h
  | cons a l ih =>
    rcases List.mem_cons.mp h with rfl | h
    · exact List.mem_cons_self
    · exact List.mem_cons_of_mem a (ih h)

/-! ### What a node becomes -/

namespace Node

def isPseudo : Node → Bool
  | .pseudo _ _ _ => true
  | _ => false

/-- The node is an element without content. -/
def isSelfClosing : Node → Bool
  | .element kind _ _ _ _ => Style.isSelfClosing kind
  | _ => false

/-- The node has an element in the template: it is no pseudo-class and in no element without content. -/
def Visit.isShown (v : Visit) : Bool := !v.node.isPseudo && !v.above.any isSelfClosing

/-- The class of an element behind other nodes: its kind with its tag, or with its number among the untagged elements of
its kind. -/
def classBehind? (before : List Node) : Node → Option Text
  | .element kind tag _ _ _ =>
    if tag.getD [] = [] then some (Sheet.numbered kind (before.countP (isUntagged kind) + 1))
    else some (Text.lower kind ++ "-" ++ tag.getD [])
  | _ => none

end Node

namespace Markup

/-- The class of a template element, which is its first attribute. -/
def class? : Markup → Option Text
  | .text _ _ => none
  | .element _ attributes _ _ => attributes.head?.bind Attribute.class?

mutual

/-- The elements of a template node with their depths, each before the elements in it. -/
def elements (depth : Nat) : Markup → List (Markup × Nat)
  | .text _ _ => []
  | .element tag attributes children selfClosing =>
    (.element tag attributes children selfClosing, depth) :: elementsAll (depth + 1) children

/-- The elements of several template nodes. -/
def elementsAll (depth : Nat) : List Markup → List (Markup × Nat)
  | [] => []
  | m :: ms => elements depth m ++ elementsAll depth ms

end

theorem elementsAll_append (depth : Nat) (ms ms' : List Markup) :
    elementsAll depth (ms ++ ms') = elementsAll depth ms ++ elementsAll depth ms' := by
  induction ms with
  | nil => rfl
  | cons m ms ih => rw [List.cons_append, elementsAll, elementsAll, ih, List.append_assoc]

theorem elementsAll_texts {ms : List Markup} (h : ∀ m ∈ ms, m.isText = true) (depth : Nat) :
    elementsAll depth ms = [] := by
  induction ms with
  | nil => rfl
  | cons m ms ih =>
    obtain ⟨hm, hms⟩ := List.forall_mem_cons.mp h
    rw [elementsAll, ih hms]
    cases m with
    | text content isExpression => rfl
    | element tag attributes children selfClosing => cases hm

end Markup

namespace Component

open Node (Visit)

/-- The text node that a property gives. -/
def textOf? (p : Property) : Option Markup :=
  if p.key = "content" || p.key = "text" then
    match p.value with
    | .flag => none
    | .static v => some (.text v false)
    | .dynamic e => some (.text e true)
  else none

/-- The template element of a node: an element has the texts of its properties before the elements in it, unless it is
self-closing; a condition and a loop have elements only. -/
inductive Shows : Node → Markup → Prop where
  | element {kind : Text} {tag : Option Text} {properties : List Property} {cs : List Node} {l : Location}
      {attributes : List Attribute} {inner : List Markup} (h : ∀ m ∈ inner, m.isText = false) :
      Shows (.element kind tag properties cs l)
        (.element (Style.resolveTag kind tag) attributes
          (if Style.isSelfClosing kind then [] else properties.filterMap textOf? ++ inner) (Style.isSelfClosing kind))
  | condition {branch : Branch} {cs : List Node} {l : Location} {inner : List Markup}
      (h : ∀ m ∈ inner, m.isText = false) :
      Shows (.condition branch cs l) (.element "template" [branchAttribute branch] inner false)
  | loop {item : Text} {index : Option Text} {collection : Text} {key : Option Text} {cs : List Node} {l : Location}
      {inner : List Markup} (h : ∀ m ∈ inner, m.isText = false) :
      Shows (.loop item index collection key cs l)
        (.element "template" (loopAttributes item index collection key) inner false)

/-- The template element at a depth is that of a node, given the nodes before it. -/
structure Mirrors (p : List Visit × Visit) (m : Markup × Nat) : Prop where
  depth : m.2 = p.2.above.length
  shows : Shows p.2.node m.1
  class_eq : m.1.class? = p.2.node.classBehind? (p.1.map (·.node))

/-- The element is given the class that it has behind the nodes before it, whether it is shown or not. -/
structure Gets (p : List Visit × Visit) (g : Classed) : Prop where
  node : g.node = p.2.node
  shown : g.shown = p.2.isShown
  class_eq : some g.cls = p.2.node.classBehind? (p.1.map (·.node))

variable {s s' : Sheet} {gs : List Classed} {kind : Text} {owner : Option Text} {sheet : Sheet}

/-! ### Texts -/

theorem Draft.texts_apply (kind cls : Text) (d : Draft) (p : Property) :
    (d.apply kind cls p).texts = d.texts ++ (textOf? p).toList := by
  unfold Draft.apply textOf?
  by_cases hkey : (decide (p.key = "content") || decide (p.key = "text")) = true
  · rw [if_pos hkey, if_pos hkey]
    cases p.value <;> simp
  · rw [if_neg hkey, if_neg hkey, Option.toList_none, List.append_nil]
    split
    · split <;> rfl
    · split
      · rfl
      · split
        · rfl
        · split <;> rfl
      · split <;> rfl

theorem texts_drafted_eq (sheet : Sheet) (kind : Text) (tag : Option Text) (properties : List Property) :
    (drafted sheet kind tag properties).texts = properties.filterMap textOf? := by
  have hfold : ∀ (ps : List Property) (d : Draft), (ps.foldl (Draft.apply kind (sheet.nextClass kind tag).1) d).texts =
      d.texts ++ ps.filterMap textOf? := by
    intro ps
    induction ps with
    | nil => simp
    | cons p ps ih =>
      intro d
      rw [List.foldl_cons, ih, Draft.texts_apply]
      cases hp : textOf? p <;> simp [hp]
  exact hfold properties (started sheet kind tag)

theorem isText_build (owner : Option Text) (sheet : Sheet) (n : Node) :
    ∀ m ∈ (build owner sheet n).1, m.isText = false := by
  cases n with
  | element kind tag properties cs l =>
    rw [build_element]
    exact List.forall_mem_singleton.mpr rfl
  | pseudo selector properties l => cases owner <;> exact List.forall_mem_nil _
  | condition branch cs l => exact List.forall_mem_singleton.mpr rfl
  | loop item index collection key cs l => exact List.forall_mem_singleton.mpr rfl

/-- What is built is elements only. -/
theorem isText_buildAll (owner : Option Text) (sheet : Sheet) (ns : List Node) :
    ∀ m ∈ (buildAll owner sheet ns).1, m.isText = false := by
  induction ns generalizing sheet with
  | nil => exact List.forall_mem_nil _
  | cons n ns ih =>
    rw [buildAll_cons]
    exact List.forall_mem_append.mpr ⟨isText_build owner sheet n, ih _⟩

/-! ### Counters -/

theorem Run.count_eq (h : Run s gs s') (kind : Text) :
    s'.count kind = s.count kind + gs.countP (·.node.isUntagged kind) := by
  induction h with
  | done s => rfl
  | @element s s' gs k tag properties cs l shown h ih =>
    rw [ih, (drafted_spec s k tag properties cs l).1 kind, List.countP_cons]
    dsimp only
    omega
  | pseudo h ih => exact ih

/-- **The counters of the sheet** are the untagged elements that have been built. -/
theorem count_buildAll (owner : Option Text) (sheet : Sheet) (above ns : List Node) (kind : Text) :
    (buildAll owner sheet ns).2.count kind =
      sheet.count kind + (Node.visitsAll above ns).countP (·.node.isUntagged kind) := by
  have hnodes := nodes_classedAll ns true owner sheet above.length
  rw [Node.preorderAll_eq_visitsAll, List.map_map] at hnodes
  have hcount := congrArg (List.countP (Node.isUntagged kind)) hnodes
  rw [List.countP_map, List.countP_filter, List.countP_map] at hcount
  rw [(run_buildAll true ns owner sheet).count_eq kind]
  refine congrArg (sheet.count kind + ·) (hcount.trans ?_)
  -- an untagged element is an element
  refine List.countP_congr fun v _ => ?_
  cases hv : v.node <;> simp [hv, Node.isUntagged, Node.isElement]

theorem nextClass_fst (s : Sheet) (kind : Text) (tag : Option Text) :
    (s.nextClass kind tag).1 =
      if tag.getD [] = [] then Sheet.numbered kind (s.count kind + 1) else Text.lower kind ++ "-" ++ tag.getD [] := by
  by_cases htag : tag.getD [] = []
  · rw [if_pos htag, Sheet.nextClass_untagged htag]
  · rw [if_neg htag]
    cases tag with
    | none => exact absurd rfl htag
    | some t =>
      cases t with
      | nil => exact absurd rfl htag
      | cons c t => rfl

/-- The sheet has counted the untagged elements before. -/
def Counted (sheet : Sheet) (before : List Visit) : Prop :=
  ∀ kind, sheet.count kind = before.countP (·.node.isUntagged kind)

variable {before : List Visit} {above : List Node}

theorem Counted.buildAll (h : Counted sheet before) (owner : Option Text) (above ns : List Node) :
    Counted (buildAll owner sheet ns).2 (before ++ Node.visitsAll above ns) := by
  intro kind
  rw [count_buildAll owner sheet above, h kind, List.countP_append]

theorem Counted.build (h : Counted sheet before) (owner : Option Text) (above : List Node) (n : Node) :
    Counted (build owner sheet n).2 (before ++ n.visits above) := by
  have hone := h.buildAll owner above [n]
  rw [buildAll_cons, Node.visitsAll, Node.visitsAll, List.append_nil] at hone
  exact hone

theorem Counted.drafted (h : Counted sheet before) (above : List Node) (kind : Text) (tag : Option Text)
    (properties : List Property) (cs : List Node) (l : Location) :
    Counted (drafted sheet kind tag properties).sheet (before ++ [⟨above, .element kind tag properties cs l⟩]) := by
  intro k
  rw [(drafted_spec sheet kind tag properties cs l).1 k, h k, List.countP_append, List.countP_singleton]

theorem Counted.classBehind? (h : Counted sheet before) (kind : Text) (tag : Option Text) (properties : List Property)
    (cs : List Node) (l : Location) :
    (Node.element kind tag properties cs l).classBehind? (before.map (·.node)) = some (sheet.nextClass kind tag).1 := by
  rw [Node.classBehind?, nextClass_fst, List.countP_map, h kind]
  by_cases htag : tag.getD [] = []
  · rw [if_pos htag, if_pos htag]
    rfl
  · rw [if_neg htag, if_neg htag]

/-! ### Shown nodes -/

/-- A node that is no pseudo-class is shown, where nothing around it is self-closing. -/
theorem filter_shown (before : List Visit) {n : Node} (habove : above.any Node.isSelfClosing = false)
    (hn : n.isPseudo = false) :
    (withBefore before (n.visits above)).filter (·.2.isShown) =
      (before, ⟨above, n⟩) ::
        (withBefore (before ++ [⟨above, n⟩]) (Node.visitsAll (n :: above) n.children)).filter (·.2.isShown) := by
  rw [Node.visits_eq, withBefore, List.filter_cons_of_pos]
  simp [Visit.isShown, habove, hn]

/-- Nothing in an element without content is shown. -/
theorem filter_hidden (before : List Visit) (ns : List Node) {above : List Node}
    (h : above.any Node.isSelfClosing = true) :
    (withBefore before (Node.visitsAll above ns)).filter (·.2.isShown) = [] := by
  refine List.filter_eq_nil_iff.mpr fun p hp hshown => ?_
  obtain ⟨n, hn, hclosing⟩ := List.any_eq_true.mp h
  have hmem := (Node.suffix_above_of_mem (mem_of_mem_withBefore hp)).mem hn
  have hany : p.2.above.any Node.isSelfClosing = true := List.any_eq_true.mpr ⟨n, hmem, hclosing⟩
  simp [Visit.isShown, hany] at hshown

/-! ### Nodes and template elements -/

/-- The template elements of the nodes are those of the visits that are shown. -/
def MirrorsAll (ns : List Node) : Prop :=
  ∀ (owner : Option Text) (sheet : Sheet) (before : List Visit) (above : List Node), Counted sheet before →
    above.any Node.isSelfClosing = false →
    List.Forall₂ Mirrors ((withBefore before (Node.visitsAll above ns)).filter (·.2.isShown))
      (Markup.elementsAll above.length (buildAll owner sheet ns).1)

theorem mirrors_element {kind : Text} {tag : Option Text} {properties : List Property} {cs : List Node} {l : Location}
    (h : MirrorsAll cs) (hcounted : Counted sheet before) (habove : above.any Node.isSelfClosing = false) :
    List.Forall₂ Mirrors
      ((withBefore before (Node.visits above (.element kind tag properties cs l))).filter (·.2.isShown))
      (Markup.elementsAll above.length (build owner sheet (.element kind tag properties cs l)).1) := by
  obtain ⟨rest, hattributes⟩ := allAttributes_drafted sheet kind tag properties
  rw [filter_shown before habove rfl, build_element, Markup.elementsAll, Markup.elementsAll, List.append_nil,
    Draft.element, Markup.elements, hattributes]
  refine .cons ⟨rfl, ?_, ?_⟩ ?_
  · rw [texts_drafted_eq]
    exact .element (isText_buildAll _ _ cs)
  · exact (hcounted.classBehind? kind tag properties cs l).symm
  · cases hclosing : Style.isSelfClosing kind with
    | true =>
      -- nothing below a self-closing element is shown
      rw [if_pos rfl, filter_hidden _ _ (by simp [Node.isSelfClosing, hclosing])]
      exact .nil
    | false =>
      -- the texts of the element come first, and are no elements
      rw [if_neg Bool.false_ne_true, Markup.elementsAll_append,
        Markup.elementsAll_texts (texts_drafted sheet kind tag properties), List.nil_append]
      have hopen : (Node.element kind tag properties cs l :: above).any Node.isSelfClosing = false := by
        simp [Node.isSelfClosing, hclosing, habove]
      exact h _ _ _ (_ :: above) (hcounted.drafted above kind tag properties cs l) hopen

/-- A node that is no element counts for nothing. -/
theorem Counted.concat {n : Node} (h : Counted sheet before) (above : List Node) (hn : n.isElement = false) :
    Counted sheet (before ++ [⟨above, n⟩]) := by
  intro kind
  have hnot : n.isUntagged kind = false := by
    cases n with
    | element => cases hn
    | pseudo => rfl
    | condition => rfl
    | loop => rfl
  rw [h kind, List.countP_append, List.countP_singleton, hnot]
  rfl

/-- A condition and a loop become a template element without a class, with what is in them inside. -/
theorem mirrors_wrapped {n : Node} {attributes : List Attribute} (h : MirrorsAll n.children)
    (hbuild : (build owner sheet n).1 = [.element "template" attributes (buildAll owner sheet n.children).1 false])
    (hshows : Shows n (.element "template" attributes (buildAll owner sheet n.children).1 false))
    (hclass : attributes.head?.bind Attribute.class? = n.classBehind? (before.map (·.node)))
    (hpseudo : n.isPseudo = false) (helement : n.isElement = false) (hcounted : Counted sheet before)
    (habove : above.any Node.isSelfClosing = false) :
    List.Forall₂ Mirrors ((withBefore before (n.visits above)).filter (·.2.isShown))
      (Markup.elementsAll above.length (build owner sheet n).1) := by
  have hopen : (n :: above).any Node.isSelfClosing = false := by
    cases n with
    | element => cases helement
    | _ => simpa [Node.isSelfClosing] using habove
  rw [filter_shown before habove hpseudo, hbuild, Markup.elementsAll, Markup.elementsAll, List.append_nil,
    Markup.elements]
  exact .cons ⟨rfl, hshows, hclass⟩ (h owner sheet _ (n :: above) (hcounted.concat above helement) hopen)

/-- **A template mirrors the forest it is built from**, node by node. -/
theorem mirrors_buildAll (ns : List Node) : MirrorsAll ns := by
  induction ns using Node.forest_induction with
  | nil => exact fun _ _ _ _ _ _ => .nil
  | cons n ns ihn ihs =>
    intro owner sheet before above hcounted habove
    rw [buildAll_cons, Node.visitsAll, withBefore_append, List.filter_append, Markup.elementsAll_append]
    refine List.rel_append ?_ (ihs owner _ _ above (hcounted.build owner above n) habove)
    cases n with
    | element kind tag properties cs l => exact mirrors_element ihn hcounted habove
    | pseudo selector properties l =>
      have hbuild : (build owner sheet (.pseudo selector properties l)).1 = [] := by cases owner <;> rfl
      rw [hbuild]
      exact .nil
    | condition branch cs l =>
      refine mirrors_wrapped ihn rfl (.condition (isText_buildAll owner sheet cs)) ?_ rfl rfl hcounted habove
      cases branch <;> rfl
    | loop item index collection key cs l =>
      exact mirrors_wrapped ihn rfl (.loop (isText_buildAll owner sheet cs)) rfl rfl rfl hcounted habove

/-! ### Elements and classes -/

/-- **Every element gets the class of its place**, also where it is not shown. -/
theorem gets_classedAll (ns : List Node) : ∀ (owner : Option Text) (sheet : Sheet) (before : List Visit)
    (above : List Node), Counted sheet before →
    List.Forall₂ Gets ((withBefore before (Node.visitsAll above ns)).filter (·.2.node.isElement))
      (classedAll (!above.any Node.isSelfClosing) owner sheet ns) := by
  induction ns using Node.forest_induction with
  | nil => exact fun _ _ _ _ _ => .nil
  | cons n ns ihn ihs =>
    intro owner sheet before above hcounted
    rw [classedAll, Node.visitsAll, withBefore_append, List.filter_append]
    refine List.rel_append ?_ (ihs owner _ _ above (hcounted.build owner above n))
    rw [Node.visits_eq, withBefore]
    cases n with
    | element kind tag properties cs l =>
      -- the element takes its class before those below it do
      have hinner := ihn (some (sheet.nextClass kind tag).1) _ _ (.element kind tag properties cs l :: above)
        (hcounted.drafted above kind tag properties cs l)
      rw [List.any_cons, Bool.not_or, Bool.and_comm] at hinner
      rw [List.filter_cons_of_pos rfl, classed]
      refine .cons ⟨rfl, ?_, (hcounted.classBehind? kind tag properties cs l).symm⟩ hinner
      simp [Visit.isShown, Node.isPseudo]
    | pseudo selector properties l => exact .nil
    | condition branch cs l =>
      -- conditions and loops take no class, and the owner stays
      rw [List.filter_cons_of_neg Bool.false_ne_true]
      exact ihn owner sheet _ (.condition branch cs l :: above) (hcounted.concat above rfl)
    | loop item index collection key cs l =>
      rw [List.filter_cons_of_neg Bool.false_ne_true]
      exact ihn owner sheet _ (.loop item index collection key cs l :: above) (hcounted.concat above rfl)

end Component

/-! ### Documents -/

namespace Document

/-- **The template mirrors the tree**, whatever the source.  The elements of the template are, in pre-order and at the
same depths, those of the elements, conditions and loops that are in no self-closing element; in each of them the texts
come before the elements.  Every element gets its class, shown or not: an untagged one its kind in lower case with its
number among all the untagged elements of its kind. -/
theorem read_template_mirrors (filename : Option Text) (source : Text) :
    Node.preorderAll 0 (read filename source).children =
        (read filename source).visits.map (fun v => (v.node, v.above.length)) ∧
      List.Forall₂ Component.Mirrors ((withBefore [] (read filename source).visits).filter (·.2.isShown))
        (Markup.elementsAll 0 (read filename source).template.1) ∧
      List.Forall₂ Component.Gets ((withBefore [] (read filename source).visits).filter (·.2.node.isElement))
        (read filename source).classed := by
  have hempty : Component.Counted {} [] := fun kind => rfl
  refine ⟨Node.preorderAll_eq_visitsAll _ [], ?_, ?_⟩
  · exact Component.mirrors_buildAll _ none {} [] [] hempty rfl
  · exact Component.gets_classedAll _ none {} [] [] hempty

example : (read none "Box\nInput\n  Box\nif x\n  Box").classed.map (·.cls) = ["box-1", "input-1", "box-2", "box-3"] ∧
    Markup.classesAll (read none "Box\nInput\n  Box\nif x\n  Box").template.1 = ["box-1", "input-1", "box-3"] ∧
    (Markup.elementsAll 0 (read none "Box\nInput\n  Box\nif x\n  Box").template.1).map (·.2) = [0, 0, 0, 1] := by
  decide +kernel

end Document

end Trellis
