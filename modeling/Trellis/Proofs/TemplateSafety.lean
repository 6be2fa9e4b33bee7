import Trellis.Component.Generate
import Trellis.Proofs.StyleRules

/-!
# Documents are safe to build

What is read can be built: the nodes of a document stand where the template needs them, a pseudo-class always finds the
class of the element it stands in, and the two templates of a condition come one behind the other.  `read_template_safe`
states all of it for every source.
-/

namespace Trellis

/-! ### The templates of a condition -/

namespace Markup

/-- The template nodes directly inside. -/
def inner : Markup → List Markup
  | .text _ _ => []
  | .element _ _ children _ => children

def IsIf (m : Markup) : Prop := ∃ test ms, m = .element "template" [Component.branchAttribute (.when test)] ms false

def IsElse (m : Markup) : Prop := ∃ ms, m = .element "template" [Component.branchAttribute .otherwise] ms false

/-- The lists of siblings in a template. -/
inductive Level (roots : List Markup) : List Markup → Prop where
  | top : Level roots roots
  | deeper {ms : List Markup} {m : Markup} (h : Level roots ms) (hm : m ∈ ms) : Level roots m.inner

mutual

/-- In every list of siblings inside, an `else` is directly behind an `if`. -/
def Paired : Markup → Prop
  | .text _ _ => True
  | .element _ _ children _ => PairedAll none children

/-- Behind `previous`, an `else` is directly behind an `if`, and so inside. -/
def PairedAll (previous : Option Markup) : List Markup → Prop
  | [] => True
  | m :: ms => (IsElse m → ∃ p ∈ previous, IsIf p) ∧ Paired m ∧ PairedAll (some m) ms

end

variable {previous : Option Markup} {m : Markup} {ms ms' : List Markup}

theorem pairedAll_append :
    PairedAll previous (ms ++ ms') ↔ PairedAll previous ms ∧ PairedAll (ms.getLast?.or previous) ms' := by
  induction ms generalizing previous with
  | nil => simp [PairedAll]
  | cons m ms ih =>
    rw [List.cons_append, PairedAll, PairedAll, ih, getLast?_cons_or, and_assoc, and_assoc]

/-- Siblings that are paired behind nothing are paired behind anything. -/
theorem pairedAll_of_none (h : PairedAll none ms) : PairedAll previous ms := by
  cases ms with
  | nil => exact trivial
  | cons m ms =>
    refine ⟨fun hm => ?_, h.2⟩
    obtain ⟨p, hp, -⟩ := h.1 hm
    cases hp

theorem pairedAll_of_texts (h : ∀ m ∈ ms, m.isText = true) : PairedAll previous ms := by
  induction ms generalizing previous with
  | nil => exact trivial
  | cons m ms ih =>
    obtain ⟨hm, hms⟩ := List.forall_mem_cons.mp h
    cases m with
    | text content isExpression =>
      refine ⟨?_, trivial, ih hms⟩
      rintro ⟨inner, hinner⟩
      cases hinner
    | element tag attributes children selfClosing => cases hm

theorem paired_inner (h : Paired m) : PairedAll none m.inner := by
  cases m with
  | text content isExpression => exact trivial
  | element tag attributes children selfClosing => exact h

theorem Level.pairedAll {roots : List Markup} (h : PairedAll none roots) (hl : Level roots ms) : PairedAll none ms := by
  induction hl with
  | top => exact h
  | deeper _ hm ih =>
    obtain ⟨before, after, rfl⟩ := List.append_of_mem hm
    exact paired_inner (pairedAll_append.mp ih).2.2.1

/-- In a list of siblings that is paired, an `else` has its `if` directly before it. -/
theorem isIf_of_pairedAll {before after : List Markup} (h : PairedAll none (before ++ m :: after)) (hm : IsElse m) :
    ∃ before' m', before = before' ++ [m'] ∧ IsIf m' := by
  obtain ⟨p, hp, hif⟩ := (pairedAll_append.mp h).2.1 hm
  rw [Option.or_none] at hp
  obtain ⟨before', rfl⟩ := List.getLast?_eq_some_iff.mp hp
  exact ⟨before', p, rfl, hif⟩

end Markup

namespace Component

theorem not_isElse_element (sheet : Sheet) (kind : Text) (tag : Option Text) (properties : List Property)
    (inner : List Markup) : ¬ ((drafted sheet kind tag properties).element kind tag inner).IsElse := by
  rintro ⟨ms, h⟩
  obtain ⟨rest, hrest⟩ := allAttributes_drafted sheet kind tag properties
  unfold Draft.element at h
  rw [hrest] at h
  injection h with _ h
  injection h with h
  cases h

theorem not_isElse_loop (item : Text) (index : Option Text) (collection : Text) (key : Option Text)
    (inner : List Markup) :
    ¬ (Markup.element "template" (loopAttributes item index collection key) inner false).IsElse := by
  rintro ⟨ms, h⟩
  injection h with _ h
  injection h with h
  cases h

theorem not_isElse_when (test : Text) (inner : List Markup) :
    ¬ (Markup.element "template" [branchAttribute (.when test)] inner false).IsElse := by
  rintro ⟨ms, h⟩
  injection h with _ h
  injection h with h
  cases h

theorem paired_element (sheet : Sheet) (kind : Text) (tag : Option Text) (properties : List Property)
    {inner : List Markup} (h : Markup.PairedAll none inner) :
    ((drafted sheet kind tag properties).element kind tag inner).Paired := by
  show Markup.PairedAll none
    (if Style.isSelfClosing kind then [] else (drafted sheet kind tag properties).texts ++ inner)
  split
  · exact trivial
  · refine Markup.pairedAll_append.mpr ⟨?_, Markup.pairedAll_of_none h⟩
    exact Markup.pairedAll_of_texts (texts_drafted sheet kind tag properties)

mutual

theorem paired_build : ∀ (n : Node) (owner : Option Text) (sheet : Sheet) {inElement : Bool} {previous : Option Node}
    {p : Option Markup}, n.Sound inElement previous →
      ((previous.map Document.isIf).getD false = true → ∃ m ∈ p, m.IsIf) →
      Markup.PairedAll p (build owner sheet n).1 ∧
        (Document.isIf n = true → ∃ m ∈ (build owner sheet n).1.getLast?.or p, m.IsIf)
  | .element kind tag properties children l, owner, sheet, inElement, previous, p, h, hp => by
    have hinner := pairedAll_build children (some (sheet.nextClass kind tag).1)
      (drafted sheet kind tag properties).sheet (p := none) h (by simp)
    rw [build_element]
    have helse := not_isElse_element sheet kind tag properties
    have hpaired := paired_element sheet kind tag properties hinner
    exact ⟨⟨fun hm => absurd hm (helse _), hpaired, trivial⟩, fun hif => by cases hif⟩
  | .pseudo selector properties l, owner, sheet, inElement, previous, p, h, hp => by
    cases owner with
    | none => exact ⟨trivial, fun hif => by cases hif⟩
    | some cls => exact ⟨trivial, fun hif => by cases hif⟩
  | .condition (.when test) children l, owner, sheet, inElement, previous, p, h, hp => by
    have hinner := pairedAll_build children owner sheet (p := none) h.2 (by simp)
    rw [build]
    exact ⟨⟨fun hm => absurd hm (not_isElse_when test _), hinner, trivial⟩, fun _ => ⟨_, rfl, test, _, rfl⟩⟩
  | .condition .otherwise children l, owner, sheet, inElement, previous, p, h, hp => by
    have hinner := pairedAll_build children owner sheet (p := none) h.2 (by simp)
    rw [build]
    -- an `else` stands behind an `if`, whose markup is the last one before it
    exact ⟨⟨fun _ => hp h.1, hinner, trivial⟩, fun hif => by cases hif⟩
  | .loop item index collection key children l, owner, sheet, inElement, previous, p, h, hp => by
    have hinner := pairedAll_build children owner sheet (p := none) h (by simp)
    rw [build]
    exact ⟨⟨fun hm => absurd hm (not_isElse_loop item index collection key _), hinner, trivial⟩,
      fun hif => by cases hif⟩

/-- In the template of sound nodes every `else` is directly behind an `if`. -/
theorem pairedAll_build : ∀ (ns : List Node) (owner : Option Text) (sheet : Sheet) {inElement : Bool}
    {previous : Option Node} {p : Option Markup}, Node.SoundAll inElement previous ns →
      ((previous.map Document.isIf).getD false = true → ∃ m ∈ p, m.IsIf) →
      Markup.PairedAll p (buildAll owner sheet ns).1
  | [], owner, sheet, inElement, previous, p, h, hp => trivial
  | n :: ns, owner, sheet, inElement, previous, p, h, hp => by
    obtain ⟨hn, hif⟩ := paired_build n owner sheet h.1 hp
    rw [buildAll]
    exact Markup.pairedAll_append.mpr ⟨hn, pairedAll_build ns owner _ h.2 hif⟩

end

theorem buildAll_cons (owner : Option Text) (sheet : Sheet) (n : Node) (ns : List Node) :
    buildAll owner sheet (n :: ns) =
      ((build owner sheet n).1 ++ (buildAll owner (build owner sheet n).2 ns).1,
        (buildAll owner (build owner sheet n).2 ns).2) := by
  rw [buildAll]

theorem buildAll_append (owner : Option Text) (sheet : Sheet) (ns ms : List Node) :
    buildAll owner sheet (ns ++ ms) =
      ((buildAll owner sheet ns).1 ++ (buildAll owner (buildAll owner sheet ns).2 ms).1,
        (buildAll owner (buildAll owner sheet ns).2 ms).2) := by
  induction ns generalizing sheet with
  | nil => rfl
  | cons n ns ih => rw [List.cons_append, buildAll_cons, buildAll_cons, ih, List.append_assoc]

/-- The templates of an `if` and of the `else` behind it come one behind the other, wherever they are built. -/
theorem buildAll_branches (owner : Option Text) (sheet : Sheet) (before after cs cs' : List Node) (test : Text)
    (l l' : Location) :
    ∃ sheet₁ sheet₂ sheet₃,
      (buildAll owner sheet (before ++ .condition (.when test) cs l :: .condition .otherwise cs' l' :: after)).1 =
        (buildAll owner sheet before).1 ++
          .element "template" [branchAttribute (.when test)] (buildAll owner sheet₁ cs).1 false ::
          .element "template" [branchAttribute .otherwise] (buildAll owner sheet₂ cs').1 false ::
          (buildAll owner sheet₃ after).1 := by
  rw [buildAll_append, buildAll_cons, buildAll_cons, build, build]
  exact ⟨_, _, _, rfl⟩

end Component

/-! ### Documents -/

namespace Node

/-- The nodes stand where they may in a list of children of `parent`; an `else` has no test by its type. -/
structure WellPlaced (parent : Option Node) (ns : List Node) : Prop where
  pseudo : ∀ selector ps l, .pseudo selector ps l ∈ ns →
    ∃ kind tag eps cs l', parent = some (.element kind tag eps cs l')
  otherwise : ∀ before cs l after, ns = before ++ .condition .otherwise cs l :: after →
    ∃ before' test cs' l', before = before' ++ [.condition (.when test) cs' l']
  when : ∀ test cs l, .condition (.when test) cs l ∈ ns → test ≠ []

theorem eq_element_of_isElement {parent : Option Node} (h : (parent.map isElement).getD false = true) :
    ∃ kind tag ps cs l, parent = some (.element kind tag ps cs l) := by
  cases parent with
  | none => cases h
  | some n =>
    cases n with
    | element kind tag ps cs l => exact ⟨kind, tag, ps, cs, l, rfl⟩
    | pseudo => cases h
    | condition => cases h
    | loop => cases h

theorem eq_when_of_isIf {ns : List Node} (h : (ns.getLast?.map Document.isIf).getD false = true) :
    ∃ ns' test cs l, ns = ns' ++ [.condition (.when test) cs l] := by
  cases hlast : ns.getLast? with
  | none =>
    rw [hlast] at h
    cases h
  | some n =>
    obtain ⟨ns', rfl⟩ := List.getLast?_eq_some_iff.mp hlast
    rw [hlast] at h
    cases n with
    | element => cases h
    | pseudo => cases h
    | condition branch cs l =>
      cases branch with
      | when test => exact ⟨ns', test, cs, l, rfl⟩
      | otherwise => cases h
    | loop => cases h

theorem Level.wellPlaced {roots ns : List Node} {parent : Option Node} (h : SoundAll false none roots)
    (hl : Level roots parent ns) : WellPlaced parent ns := by
  have hsound := hl.soundAll h
  constructor
  · intro selector ps l hmem
    obtain ⟨before, after, rfl⟩ := List.append_of_mem hmem
    exact eq_element_of_isElement (sound_of_soundAll hsound)
  · rintro before cs l after rfl
    exact eq_when_of_isIf (sound_of_soundAll hsound).1
  · intro test cs l hmem
    obtain ⟨before, after, rfl⟩ := List.append_of_mem hmem
    exact (sound_of_soundAll hsound).1

end Node

namespace Document

/-- The template of a document and its sheet. -/
def template (d : Document) : List Markup × Sheet := Component.buildAll none {} d.children

/-- The elements of a document in order, with their classes. -/
def classed (d : Document) : List Component.Classed := Component.classedAll true none {} d.children

/-- The text of a component, built with one stack of classes for the whole tree; there is none where a pseudo-class
finds the stack empty. -/
def generateVisiting? (path : Option Text) (indentSize : Nat) (d : Document) : Option Text :=
  (Component.visitAll {} d.children).map fun (markup, w) =>
    Text.join "\n\n"
      ((Component.headerName? path).toList.map Component.header ++
        [CodeLine.renderAll indentSize (Component.scriptLines d.script), Component.templateSection markup,
          Component.styleSection w.sheet.rules]) ++ "\n"

/-- A document whose template can be built, and is built right. -/
structure TemplateSafe (d : Document) : Prop where
  /-- In every list of children, the nodes stand where they may. -/
  placed : ∀ parent ns, Node.Level d.children parent ns → Node.WellPlaced parent ns
  /-- No pseudo-class finds the stack of classes empty, and the stack is empty again in the end. -/
  visits : Component.visitAll {} d.children = some (d.template.1, { sheet := d.template.2 })
  generates : ∀ path indentSize, generateVisiting? path indentSize d = some (Component.generate path indentSize d)
  /-- Every element has a class, and shows it. -/
  elements : d.classed.map (·.node) = ((Node.preorderAll 1 d.children).map (·.1)).filter Node.isElement
  classes : Markup.classesAll d.template.1 = Component.shownClasses d.classed
  /-- Every rule is for the class of an element, or for a pseudo-class directly in an element, with its class. -/
  rules : ∀ x ∈ d.template.2.selectors, ∃ g ∈ d.classed, g.Owns x
  /-- Every pseudo-class has its rule, with the class of the element that it stands in. -/
  styled : ∀ g ∈ d.classed, g.Styled d.template.2
  /-- The templates of an `if` and its `else` come one behind the other. -/
  branches : ∀ parent ns before cs' l' after, Node.Level d.children parent ns →
    ns = before ++ .condition .otherwise cs' l' :: after →
    ∃ before' test cs l, before = before' ++ [.condition (.when test) cs l] ∧
      ∀ owner sheet, ∃ sheet₁ sheet₂ sheet₃,
        (Component.buildAll owner sheet ns).1 =
          (Component.buildAll owner sheet before').1 ++
            .element "template" [Component.branchAttribute (.when test)] (Component.buildAll owner sheet₁ cs).1 false ::
            .element "template" [Component.branchAttribute .otherwise] (Component.buildAll owner sheet₂ cs').1 false ::
            (Component.buildAll owner sheet₃ after).1
  /-- In the template, every `else` is directly behind an `if`. -/
  paired : ∀ ms before m after, Markup.Level d.template.1 ms → ms = before ++ m :: after → m.IsElse →
    ∃ before' m', before = before' ++ [m'] ∧ m'.IsIf

theorem visits_of_sound {d : Document} (h : Node.SoundAll false none d.children) :
    Component.visitAll {} d.children = some (d.template.1, { sheet := d.template.2 }) :=
  Component.visitAll_eq d.children (w := {}) h (by simp)

theorem generates_of_sound {d : Document} (h : Node.SoundAll false none d.children) (path : Option Text)
    (indentSize : Nat) : generateVisiting? path indentSize d = some (Component.generate path indentSize d) := by
  unfold generateVisiting?
  rw [visits_of_sound h]
  rfl

theorem rules_of_sound {d : Document} (h : Node.SoundAll false none d.children) :
    ∀ x ∈ d.template.2.selectors, ∃ g ∈ d.classed, g.Owns x := by
  intro x hx
  -- a sheet starts empty, and no element is around the whole document
  obtain hx | hx | ⟨cls, selector, ps, l, howner, -⟩ := (Component.adds_buildAll true d.children h).selectors x hx
  · cases hx
  · exact hx
  · cases howner

/-- **What is read is safe to build**, whatever the source. -/
theorem read_template_safe (filename : Option Text) (source : Text) : (read filename source).TemplateSafe := by
  have hsound := read_sound filename source
  generalize read filename source = d at hsound
  exact {
    placed := fun parent ns hl => hl.wellPlaced hsound
    visits := visits_of_sound hsound
    generates := generates_of_sound hsound
    elements := Component.nodes_classedAll d.children true none {} 1
    classes := Component.classes_buildAll d.children none {}
    rules := rules_of_sound hsound
    styled := Component.styled_buildAll true d.children hsound
    branches := by
      rintro parent ns before cs' l' after hl rfl
      obtain ⟨before', test, cs, l, rfl⟩ := (hl.wellPlaced hsound).otherwise before cs' l' after rfl
      refine ⟨before', test, cs, l, rfl, fun owner sheet => ?_⟩
      rw [List.append_assoc]
      exact Component.buildAll_branches owner sheet before' after cs cs' test l l'
    paired := by
      rintro ms before m after hl rfl hm
      have hpaired := Component.pairedAll_build d.children none {} (p := none) hsound (by simp)
      exact Markup.isIf_of_pairedAll (hl.pairedAll hpaired) hm }

end Document

end Trellis
