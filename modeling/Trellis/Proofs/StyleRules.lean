import Trellis.Proofs.ClassStack

/-!
# The rules of a template

Which rules a template gets, and for which elements.  `classedAll` lists the elements of a forest with the classes they
are given; these are the classes that the template shows (`classes_buildAll`).  The rules are those of the classes and
those of the pseudo-classes that stand directly in the elements, with the class of that element (`adds_buildAll`), and
every such pseudo-class has its rule (`styled_buildAll`).
-/

namespace Trellis

/-! ### Sheets -/

namespace Sheet

def selectors (s : Sheet) : List Text := s.rules.map (·.selector)

/-- The sheet has a rule for the selector, with these declarations in a row. -/
def Holds (s : Sheet) (selector : Text) (ds : List Style.Declaration) : Prop :=
  ∃ r ∈ s.rules, r.selector = selector ∧ ds <:+: r.declarations

/-- The second sheet holds what the first does, and its new selectors are of a kind. -/
structure Adds (S : Text → Prop) (s s' : Sheet) : Prop where
  keeps : ∀ selector ds, s.Holds selector ds → s'.Holds selector ds
  selectors : ∀ x ∈ s'.selectors, x ∈ s.selectors ∨ S x

variable {S T : Text → Prop} {s s' s'' : Sheet}

theorem Adds.refl : Adds S s s := ⟨fun _ _ h => h, fun _ h => .inl h⟩

theorem Adds.trans (h : Adds S s s') (h' : Adds S s' s'') : Adds S s s'' where
  keeps := fun x ds hx => h'.keeps x ds (h.keeps x ds hx)
  selectors := fun x hx => (h'.selectors x hx).elim (h.selectors x) .inr

theorem Adds.mono (h : Adds S s s') (hST : ∀ x, S x → T x) : Adds T s s' where
  keeps := h.keeps
  selectors := fun x hx => (h.selectors x hx).imp_right (hST x)

theorem adds_declareIn (selector : Text) (ds : List Style.Declaration) (rules : List StyleRule) :
    (∀ r ∈ rules, ∃ r' ∈ declareIn selector ds rules, r'.selector = r.selector ∧ r.declarations <+: r'.declarations) ∧
      (∀ r' ∈ declareIn selector ds rules, r'.selector ∈ rules.map (·.selector) ∨ r'.selector = selector) ∧
      ∃ r' ∈ declareIn selector ds rules, r'.selector = selector ∧ ds <:+ r'.declarations := by
  induction rules with
  | nil => simp [declareIn]
  | cons r rs ih =>
    obtain ⟨hkeeps, hnew, r', hr', hsel, hds⟩ := ih
    simp only [declareIn]
    by_cases h : r.selector = selector
    · -- the first rule has the selector, and the declarations go behind its own
      rw [if_pos h]
      refine ⟨?_, ?_, ?_⟩
      · refine List.forall_mem_cons.mpr ⟨⟨_, List.mem_cons_self, rfl, List.prefix_append _ _⟩, fun q hq => ?_⟩
        exact ⟨q, List.mem_cons_of_mem _ hq, rfl, List.prefix_rfl⟩
      · refine List.forall_mem_cons.mpr ⟨.inr h, fun q hq => .inl ?_⟩
        exact List.mem_map_of_mem (List.mem_cons_of_mem _ hq)
      · exact ⟨_, List.mem_cons_self, h, List.suffix_append _ _⟩
    · -- the first rule stays, and the others are looked through
      rw [if_neg h]
      refine ⟨?_, ?_, r', List.mem_cons_of_mem _ hr', hsel, hds⟩
      · refine List.forall_mem_cons.mpr ⟨⟨r, List.mem_cons_self, rfl, List.prefix_rfl⟩, fun q hq => ?_⟩
        obtain ⟨q', hq', h'⟩ := hkeeps q hq
        exact ⟨q', List.mem_cons_of_mem _ hq', h'⟩
      · refine List.forall_mem_cons.mpr ⟨.inl List.mem_cons_self, fun q hq => ?_⟩
        exact (hnew q hq).imp_left (List.mem_cons_of_mem _)

theorem adds_declare (selector : Text) (ds : List Style.Declaration) (s : Sheet) :
    Adds (· = selector) s (s.declare selector ds) := by
  obtain ⟨hkeeps, hnew, -⟩ := adds_declareIn selector ds s.rules
  constructor
  · rintro x es ⟨r, hr, rfl, hes⟩
    obtain ⟨r', hr', hsel, hpre⟩ := hkeeps r hr
    exact ⟨r', hr', hsel, hes.trans hpre.isInfix⟩
  · intro x hx
    obtain ⟨r', hr', rfl⟩ := List.mem_map.mp hx
    exact hnew r' hr'

theorem holds_declare (selector : Text) (ds : List Style.Declaration) (s : Sheet) :
    (s.declare selector ds).Holds selector ds := by
  obtain ⟨-, -, r', hr', hsel, hds⟩ := adds_declareIn selector ds s.rules
  exact ⟨r', hr', hsel, hds.isInfix⟩

theorem Adds.of_rules (h : s'.rules = s.rules) : Adds S s s' := by
  constructor
  · intro x ds hx
    unfold Holds at hx ⊢
    rwa [h]
  · intro x hx
    unfold Sheet.selectors at hx ⊢
    rw [h] at hx
    exact .inl hx

theorem adds_nextClass (kind : Text) (tag : Option Text) (s : Sheet) : Adds S s (s.nextClass kind tag).2 := by
  refine .of_rules ?_
  unfold nextClass
  split <;> rfl

theorem adds_addDefaults (cls kind : Text) (s : Sheet) : Adds (· = '.' :: cls) s (s.addDefaults cls kind) := by
  unfold addDefaults
  split
  · exact .refl
  · split
    · exact .refl
    · have hstyled : Adds (· = '.' :: cls) s { s with styled := s.styled ++ [cls] } := .of_rules rfl
      exact hstyled.trans (adds_declare ('.' :: cls) _ _)

end Sheet

namespace Component

/-! ### Drafts -/

/-- What properties can change in the draft of an element. -/
structure Draft.Grows (cls : Text) (d d' : Draft) : Prop where
  attributes : d.attributes <+: d'.attributes
  texts : (∀ x ∈ d.texts, x.isText = true) → ∀ x ∈ d'.texts, x.isText = true
  sheet : Sheet.Adds (· = '.' :: cls) d.sheet d'.sheet

theorem Draft.grows_apply (kind cls : Text) (d : Draft) (p : Property) : d.Grows cls (d.apply kind cls p) := by
  have hattr : ∀ a, d.Grows cls (d.attr a) := fun a => ⟨List.prefix_append _ _, fun h => h, .refl⟩
  have htext : ∀ c e, d.Grows cls { d with texts := d.texts ++ [.text c e] } := by
    refine fun c e => ⟨List.prefix_rfl, fun h x hx => ?_, .refl⟩
    obtain hx | hx := List.mem_append.mp hx
    · exact h x hx
    · rw [List.mem_singleton.mp hx]
      rfl
  unfold Draft.apply
  split
  · -- a property of text adds text, if it has a value
    split
    · exact ⟨List.prefix_rfl, fun h => h, .refl⟩
    · exact htext _ _
    · exact htext _ _
  · split
    · -- any other adds an attribute, or else a declaration or nothing
      split <;> exact hattr _
    · split
      · exact hattr _
      · split
        · exact hattr _
        · split
          · exact ⟨List.prefix_rfl, fun h => h, .refl⟩
          · exact hattr _
      · split
        · exact ⟨List.prefix_rfl, fun h => h, Sheet.adds_declare _ _ _⟩
        · exact hattr _

theorem Draft.grows_foldl (kind cls : Text) (ps : List Property) (d : Draft) :
    d.Grows cls (ps.foldl (Draft.apply kind cls) d) := by
  induction ps generalizing d with
  | nil => exact ⟨List.prefix_rfl, fun h => h, .refl⟩
  | cons p ps ih =>
    have hp := d.grows_apply kind cls p
    have hps := ih (d.apply kind cls p)
    exact ⟨hp.attributes.trans hps.attributes, fun h => hps.texts (hp.texts h), hp.sheet.trans hps.sheet⟩

variable (sheet : Sheet) (kind : Text) (tag : Option Text) (properties : List Property)

theorem grows_drafted :
    (started sheet kind tag).Grows (sheet.nextClass kind tag).1 (drafted sheet kind tag properties) :=
  Draft.grows_foldl kind (sheet.nextClass kind tag).1 properties (started sheet kind tag)

/-- An element shows its class first. -/
theorem allAttributes_drafted :
    ∃ rest, (drafted sheet kind tag properties).allAttributes =
      ⟨"class", some (sheet.nextClass kind tag).1, false⟩ :: rest := by
  obtain ⟨more, hmore⟩ := (grows_drafted sheet kind tag properties).attributes
  unfold Draft.allAttributes
  rw [← hmore]
  split
  · exact ⟨more, rfl⟩
  · exact ⟨_, rfl⟩

theorem texts_drafted : ∀ x ∈ (drafted sheet kind tag properties).texts, x.isText = true :=
  (grows_drafted sheet kind tag properties).texts (by simp [started])

theorem adds_drafted :
    Sheet.Adds (· = '.' :: (sheet.nextClass kind tag).1) sheet (drafted sheet kind tag properties).sheet := by
  have hstart := (Sheet.adds_nextClass kind tag sheet).trans (Sheet.adds_addDefaults (sheet.nextClass kind tag).1 kind _)
  exact hstart.trans (grows_drafted sheet kind tag properties).sheet

/-! ### Elements and their classes -/

/-- An element with the class it is given, and whether the template shows it: what is in a self-closing element is not
shown. -/
structure Classed where
  cls : Text
  node : Node
  shown : Bool

mutual

/-- The elements of a node in order, built inside an element of class `owner`. -/
def classed (shown : Bool) (owner : Option Text) (sheet : Sheet) : Node → List Classed
  | .element kind tag properties children l =>
    ⟨(sheet.nextClass kind tag).1, .element kind tag properties children l, shown⟩ ::
      classedAll (shown && !Style.isSelfClosing kind) (some (sheet.nextClass kind tag).1)
        (drafted sheet kind tag properties).sheet children
  | .pseudo _ _ _ => []
  | .condition _ children _ | .loop _ _ _ _ children _ => classedAll shown owner sheet children

/-- The elements of a forest in order. -/
def classedAll (shown : Bool) (owner : Option Text) (sheet : Sheet) : List Node → List Classed
  | [] => []
  | n :: ns => classed shown owner sheet n ++ classedAll shown owner (build owner sheet n).2 ns

end

/-- The selector of a pseudo-class in an element of a class. -/
def pseudoSelector (cls selector : Text) : Text := '.' :: cls ++ ":" ++ selector

/-- The selector is the class of the element, or that of a pseudo-class that stands directly in it. -/
def Classed.Owns (g : Classed) (x : Text) : Prop :=
  x = '.' :: g.cls ∨ ∃ selector ps l, Node.pseudo selector ps l ∈ g.node.children ∧ x = pseudoSelector g.cls selector

/-- The selectors that a forest may bring: those of its elements, and those of the pseudo-classes that stand directly
in the element around it. -/
def Brings (shown : Bool) (owner : Option Text) (sheet : Sheet) (ns : List Node) (x : Text) : Prop :=
  (∃ g ∈ classedAll shown owner sheet ns, g.Owns x) ∨
    ∃ cls selector ps l, owner = some cls ∧ Node.pseudo selector ps l ∈ ns ∧ x = pseudoSelector cls selector

variable {shown : Bool} {owner : Option Text} {sheet : Sheet} {inElement : Bool} {previous : Option Node}

/-- Outside elements no pseudo-class stands directly. -/
theorem not_mem_of_soundAll {ns : List Node} {selector : Text} {ps : List Property} {l : Location}
    (h : Node.SoundAll false previous ns) : Node.pseudo selector ps l ∉ ns := by
  intro hmem
  obtain ⟨before, after, rfl⟩ := List.append_of_mem hmem
  have hn := (Node.soundAll_append.mp h).2.1
  cases hn

/-- A condition and a loop bring what their children do. -/
theorem brings_of_wrapped {n : Node} {children : List Node} {x : Text} (hsound : Node.SoundAll false none children)
    (hn : classed shown owner sheet n = classedAll shown owner sheet children)
    (h : Brings shown owner sheet children x) : Brings shown owner sheet [n] x := by
  obtain ⟨g, hg, hx⟩ | ⟨cls, selector, ps, l, -, hmem, -⟩ := h
  · refine .inl ⟨g, ?_, hx⟩
    rw [classedAll, hn]
    exact List.mem_append_left _ hg
  · exact absurd hmem (not_mem_of_soundAll hsound)

mutual

theorem adds_build (shown : Bool) : ∀ (n : Node) {owner : Option Text} {sheet : Sheet} {inElement : Bool}
    {previous : Option Node}, n.Sound inElement previous →
      Sheet.Adds (Brings shown owner sheet [n]) sheet (build owner sheet n).2
  | .element kind tag properties children l, owner, sheet, inElement, previous, h => by
    rw [build_element]
    have hself : (⟨(sheet.nextClass kind tag).1, .element kind tag properties children l, shown⟩ : Classed) ∈
        classedAll shown owner sheet [.element kind tag properties children l] := by
      simp [classedAll, classed]
    -- first the element itself, then what is below it
    refine ((adds_drafted sheet kind tag properties).mono ?_).trans
      ((adds_buildAll (shown && !Style.isSelfClosing kind) children h).mono ?_)
    · rintro x rfl
      exact .inl ⟨_, hself, .inl rfl⟩
    · rintro x (⟨g, hg, hx⟩ | ⟨cls, selector, ps, l', hcls, hmem, rfl⟩)
      · refine .inl ⟨g, ?_, hx⟩
        rw [classedAll, classed]
        exact List.mem_append_left _ (List.mem_cons_of_mem _ hg)
      · cases hcls
        exact .inl ⟨_, hself, .inr ⟨selector, ps, l', hmem, rfl⟩⟩
  | .pseudo selector properties l, owner, sheet, inElement, previous, h => by
    cases owner with
    | none => exact .refl
    | some cls =>
      refine (Sheet.adds_declare (pseudoSelector cls selector) _ sheet).mono ?_
      rintro x rfl
      exact .inr ⟨cls, selector, properties, l, rfl, List.mem_singleton_self _, rfl⟩
  | .condition branch children l, owner, sheet, inElement, previous, h => by
    have hsound : Node.SoundAll false none children := Node.soundAll_children h
    rw [build]
    exact (adds_buildAll shown children hsound).mono fun x hx => brings_of_wrapped hsound rfl hx
  | .loop item index collection key children l, owner, sheet, inElement, previous, h => by
    have hsound : Node.SoundAll false none children := h
    rw [build]
    exact (adds_buildAll shown children hsound).mono fun x hx => brings_of_wrapped hsound rfl hx

/-- **The selectors of a template**: every new one is brought by an element or by a pseudo-class directly in it. -/
theorem adds_buildAll (shown : Bool) : ∀ (ns : List Node) {owner : Option Text} {sheet : Sheet} {inElement : Bool}
    {previous : Option Node}, Node.SoundAll inElement previous ns →
      Sheet.Adds (Brings shown owner sheet ns) sheet (buildAll owner sheet ns).2
  | [], owner, sheet, inElement, previous, h => .refl
  | n :: ns, owner, sheet, inElement, previous, h => by
    rw [buildAll]
    refine ((adds_build shown n h.1).mono ?_).trans ((adds_buildAll shown ns h.2).mono ?_)
    · rintro x (⟨g, hg, hx⟩ | ⟨cls, selector, ps, l, ho, hmem, rfl⟩)
      · refine .inl ⟨g, ?_, hx⟩
        rw [classedAll, classedAll, List.append_nil] at hg
        rw [classedAll]
        exact List.mem_append_left _ hg
      · rw [List.mem_singleton] at hmem
        exact .inr ⟨cls, selector, ps, l, ho, hmem ▸ List.mem_cons_self, rfl⟩
    · rintro x (⟨g, hg, hx⟩ | ⟨cls, selector, ps, l, ho, hmem, rfl⟩)
      · refine .inl ⟨g, ?_, hx⟩
        rw [classedAll]
        exact List.mem_append_right _ hg
      · exact .inr ⟨cls, selector, ps, l, ho, List.mem_cons_of_mem _ hmem, rfl⟩

end

/-! ### Every pseudo-class has its rule -/

/-- The sheet has the rule of every pseudo-class that stands directly in the element. -/
def Classed.Styled (s : Sheet) (g : Classed) : Prop :=
  ∀ selector ps l, Node.pseudo selector ps l ∈ g.node.children →
    s.Holds (pseudoSelector g.cls selector) (ps.filterMap pseudoDeclaration?)

theorem Classed.Styled.adds {S : Text → Prop} {s s' : Sheet} {g : Classed} (h : g.Styled s) (hs : Sheet.Adds S s s') :
    g.Styled s' :=
  fun selector ps l hmem => hs.keeps _ _ (h selector ps l hmem)

/-- The pseudo-classes directly in an element get rules with its class. -/
theorem holds_of_mem {cls selector : Text} {ps : List Property} {l : Location} {ns : List Node}
    (h : Node.SoundAll inElement previous ns) (hmem : Node.pseudo selector ps l ∈ ns) :
    (buildAll (some cls) sheet ns).2.Holds (pseudoSelector cls selector) (ps.filterMap pseudoDeclaration?) := by
  induction ns generalizing sheet previous with
  | nil => cases hmem
  | cons n ns ih =>
    rw [buildAll]
    obtain rfl | hmem := List.mem_cons.mp hmem
    · exact (adds_buildAll true ns h.2).keeps _ _ (Sheet.holds_declare _ _ sheet)
    · exact ih h.2 hmem

mutual

theorem styled_build (shown : Bool) : ∀ (n : Node) {owner : Option Text} {sheet : Sheet} {inElement : Bool}
    {previous : Option Node}, n.Sound inElement previous →
      ∀ g ∈ classed shown owner sheet n, g.Styled (build owner sheet n).2
  | .element kind tag properties children l, owner, sheet, inElement, previous, h => by
    rw [build_element, classed]
    refine List.forall_mem_cons.mpr ⟨fun selector ps l' hmem => holds_of_mem h hmem, ?_⟩
    exact styled_buildAll (shown && !Style.isSelfClosing kind) children h
  | .pseudo selector properties l, owner, sheet, inElement, previous, h => by simp [classed]
  | .condition branch children l, owner, sheet, inElement, previous, h => by
    have hsound : Node.SoundAll false none children := Node.soundAll_children h
    rw [build, classed]
    exact styled_buildAll shown children hsound
  | .loop item index collection key children l, owner, sheet, inElement, previous, h => by
    have hsound : Node.SoundAll false none children := h
    rw [build, classed]
    exact styled_buildAll shown children hsound

/-- **Every pseudo-class has its rule**, with the class of the element that it stands in. -/
theorem styled_buildAll (shown : Bool) : ∀ (ns : List Node) {owner : Option Text} {sheet : Sheet} {inElement : Bool}
    {previous : Option Node}, Node.SoundAll inElement previous ns →
      ∀ g ∈ classedAll shown owner sheet ns, g.Styled (buildAll owner sheet ns).2
  | [], owner, sheet, inElement, previous, h => by simp [classedAll]
  | n :: ns, owner, sheet, inElement, previous, h => by
    rw [buildAll, classedAll]
    refine List.forall_mem_append.mpr ⟨fun g hg => ?_, styled_buildAll shown ns h.2⟩
    exact (styled_build shown n h.1 g hg).adds (adds_buildAll shown ns h.2)

end

/-! ### The classes that a template shows -/

end Component

def Attribute.class? (a : Attribute) : Option Text := if a.name = "class" then a.value else none

namespace Markup

mutual

/-- The classes of the elements of a template, in order; an element has its own class first. -/
def classes : Markup → List Text
  | .text _ _ => []
  | .element _ attributes children _ => (attributes.head?.bind Attribute.class?).toList ++ classesAll children

/-- The classes of several template nodes. -/
def classesAll : List Markup → List Text
  | [] => []
  | m :: ms => classes m ++ classesAll ms

end

theorem classesAll_append (ms ms' : List Markup) : classesAll (ms ++ ms') = classesAll ms ++ classesAll ms' := by
  induction ms with
  | nil => rfl
  | cons m ms ih => rw [List.cons_append, classesAll, classesAll, ih, List.append_assoc]

theorem classesAll_texts {ms : List Markup} (h : ∀ m ∈ ms, m.isText = true) : classesAll ms = [] := by
  induction ms with
  | nil => rfl
  | cons m ms ih =>
    obtain ⟨hm, hms⟩ := List.forall_mem_cons.mp h
    rw [classesAll, ih hms]
    cases m with
    | text content isExpression => rfl
    | element tag attributes children selfClosing => cases hm

end Markup

namespace Component

/-- The classes of the elements that are shown. -/
def shownClasses (gs : List Classed) : List Text := (gs.filter (·.shown)).map (·.cls)

theorem shownClasses_append (gs gs' : List Classed) :
    shownClasses (gs ++ gs') = shownClasses gs ++ shownClasses gs' := by
  simp [shownClasses]

theorem shownClasses_cons (g : Classed) (gs : List Classed) :
    shownClasses (g :: gs) = (if g.shown then [g.cls] else []) ++ shownClasses gs := by
  cases h : g.shown <;> simp [shownClasses, h]

mutual

theorem shownClasses_hidden : ∀ (n : Node) (owner : Option Text) (sheet : Sheet),
    shownClasses (classed false owner sheet n) = []
  | .element kind tag properties children l, owner, sheet => by
    rw [classed, shownClasses_cons, Bool.false_and, shownClasses_hiddenAll children]
    rfl
  | .pseudo selector properties l, owner, sheet => rfl
  | .condition branch children l, owner, sheet => shownClasses_hiddenAll children owner sheet
  | .loop item index collection key children l, owner, sheet => shownClasses_hiddenAll children owner sheet

/-- Nothing is shown of what is in a self-closing element. -/
theorem shownClasses_hiddenAll : ∀ (ns : List Node) (owner : Option Text) (sheet : Sheet),
    shownClasses (classedAll false owner sheet ns) = []
  | [], owner, sheet => rfl
  | n :: ns, owner, sheet => by
    rw [classedAll, shownClasses_append, shownClasses_hidden n, shownClasses_hiddenAll ns]
    rfl

end

/-- The classes of an element and of what is built inside it. -/
theorem classes_element (sheet : Sheet) (kind : Text) (tag : Option Text) (properties : List Property)
    (inner : List Markup) :
    ((drafted sheet kind tag properties).element kind tag inner).classes =
      (sheet.nextClass kind tag).1 :: if Style.isSelfClosing kind then [] else Markup.classesAll inner := by
  obtain ⟨rest, hrest⟩ := allAttributes_drafted sheet kind tag properties
  unfold Draft.element
  rw [Markup.classes, hrest]
  cases Style.isSelfClosing kind with
  | true => rfl
  | false =>
    simp only [Bool.false_eq_true, if_false]
    rw [Markup.classesAll_append, Markup.classesAll_texts (texts_drafted sheet kind tag properties)]
    rfl

mutual

theorem classes_build : ∀ (n : Node) (owner : Option Text) (sheet : Sheet),
    Markup.classesAll (build owner sheet n).1 = shownClasses (classed true owner sheet n)
  | .element kind tag properties children l, owner, sheet => by
    rw [build_element, classed, shownClasses_cons, Markup.classesAll, classes_element, classes_buildAll children]
    cases Style.isSelfClosing kind with
    | true =>
      rw [Bool.not_true, Bool.and_false, shownClasses_hiddenAll children]
      rfl
    | false => simp [Markup.classesAll]
  | .pseudo selector properties l, owner, sheet => by cases owner <;> rfl
  | .condition branch children l, owner, sheet => by
    rw [build, classed, Markup.classesAll, Markup.classes, classes_buildAll children]
    -- the attributes of branches and loops are no classes
    cases branch <;> exact List.append_nil _
  | .loop item index collection key children l, owner, sheet => by
    rw [build, classed, Markup.classesAll, Markup.classes, classes_buildAll children]
    exact List.append_nil _

/-- **The classes that a template shows** are those of the elements outside self-closing ones. -/
theorem classes_buildAll : ∀ (ns : List Node) (owner : Option Text) (sheet : Sheet),
    Markup.classesAll (buildAll owner sheet ns).1 = shownClasses (classedAll true owner sheet ns)
  | [], owner, sheet => rfl
  | n :: ns, owner, sheet => by
    rw [buildAll, classedAll, shownClasses_append, ← classes_build n, ← classes_buildAll ns, Markup.classesAll_append]

end

mutual

theorem nodes_classed : ∀ (n : Node) (shown : Bool) (owner : Option Text) (sheet : Sheet) (depth : Nat),
    (classed shown owner sheet n).map (·.node) = ((n.preorder depth).map (·.1)).filter Node.isElement
  | .element kind tag properties children l, shown, owner, sheet, depth => by
    rw [classed, Node.preorder, List.map_cons, List.map_cons, nodes_classedAll children _ _ _ (depth + 1)]
    rfl
  | .pseudo selector properties l, shown, owner, sheet, depth => rfl
  | .condition branch children l, shown, owner, sheet, depth => nodes_classedAll children _ _ _ (depth + 1)
  | .loop item index collection key children l, shown, owner, sheet, depth =>
    nodes_classedAll children _ _ _ (depth + 1)

/-- The elements with their classes are all the elements, in pre-order. -/
theorem nodes_classedAll : ∀ (ns : List Node) (shown : Bool) (owner : Option Text) (sheet : Sheet) (depth : Nat),
    (classedAll shown owner sheet ns).map (·.node) = ((Node.preorderAll depth ns).map (·.1)).filter Node.isElement
  | [], shown, owner, sheet, depth => rfl
  | n :: ns, shown, owner, sheet, depth => by
    rw [classedAll, List.map_append, nodes_classed n _ _ _ depth, nodes_classedAll ns _ _ _ depth, Node.preorderAll,
      List.map_append, List.filter_append]

end

end Component

end Trellis
