import Trellis.Proofs.ElementKinds

/-!
# Classes by number

An element without a tag gets the lower case name of its kind and the number of the element among those of its kind.
Building a template is a run over its elements in order (`run_buildAll`): each takes the next number of its kind
(`Run.cls_eq`) and adds to the rule of its class alone (`Run.declarations_eq`).  Two untagged elements get the same
class exactly when their kinds differ in case only and their numbers agree; they then share one rule
(`read_untagged_classes`).
-/

namespace Trellis

/-! ### Numbers -/

namespace Text

theorem ofNat_injective : Function.Injective ofNat := by
  intro m n h
  have hread := congrArg (fun ds => Nat.ofDigitChars 10 ds 0) h
  simpa [ofNat] using hread

theorem isDigit_of_mem_ofNat {c : Char} {n : Nat} (h : c ∈ ofNat n) : c.isDigit = true :=
  Nat.isDigit_of_mem_toDigits (by decide) (by decide) h

/-- The part behind the last sign is determined. -/
theorem append_cons_inj_last {c : Char} {s t a b : Text} (ha : c ∉ a) (hb : c ∉ b) :
    s ++ c :: a = t ++ c :: b ↔ s = t ∧ a = b := by
  refine ⟨fun h => ?_, fun ⟨hs, ha⟩ => by rw [hs, ha]⟩
  rcases List.append_eq_append_iff.mp h with ⟨x, rfl, hx⟩ | ⟨x, rfl, hx⟩
  · cases x with
    | nil => exact ⟨(List.append_nil s).symm, (List.cons.inj hx).2⟩
    | cons d x =>
      rw [(List.cons.inj hx).2] at ha
      exact absurd (List.mem_append_right x List.mem_cons_self) ha
  · cases x with
    | nil => exact ⟨List.append_nil t, (List.cons.inj hx).2.symm⟩
    | cons d x =>
      rw [(List.cons.inj hx).2] at hb
      exact absurd (List.mem_append_right x List.mem_cons_self) hb

end Text

namespace Sheet

variable {s : Sheet} {kind kind' : Text} {tag : Option Text} {m n : Nat} {cls selector x : Text}
  {ds : List Style.Declaration}

/-- The class of an element by its number. -/
def numbered (kind : Text) (n : Nat) : Text := Text.lower kind ++ "-" ++ Text.ofNat n

theorem numbered_eq_iff : numbered kind m = numbered kind' n ↔ Text.lower kind = Text.lower kind' ∧ m = n := by
  have hdash : ∀ k, '-' ∉ Text.ofNat k := fun k hmem => absurd (Text.isDigit_of_mem_ofNat hmem) (by decide)
  have hcut : ∀ kind k, numbered kind k = Text.lower kind ++ '-' :: Text.ofNat k := fun kind k => List.append_assoc ..
  rw [hcut, hcut, Text.append_cons_inj_last (hdash m) (hdash n), Text.ofNat_injective.eq_iff]

theorem colon_not_mem_numbered (h : Form.isElement kind = true) (n : Nat) : ':' ∉ numbered kind n := by
  have hnumber : ':' ∉ Text.ofNat n := fun hmem => absurd (Text.isDigit_of_mem_ofNat hmem) (by decide)
  simp only [numbered, List.mem_append, not_or]
  exact ⟨⟨Text.colon_not_mem_lower h, by decide⟩, hnumber⟩

/-! ### Counters -/

theorem lookup_setCount (k kind : Text) (n : Nat) (counters : List (Text × Nat)) :
    (setCount kind n counters).lookup k = if kind = k then some n else counters.lookup k := by
  induction counters with
  | nil =>
    rw [setCount, List.lookup_cons]
    by_cases h : kind = k
    · rw [if_pos h, beq_iff_eq.mpr h.symm]
    · rw [if_neg h, beq_eq_false_iff_ne.mpr (Ne.symm h)]
  | cons p counters ih =>
    obtain ⟨j, i⟩ := p
    rw [setCount]
    by_cases hj : j = kind
    · -- the counter of the kind is here
      subst hj
      rw [if_pos rfl, List.lookup_cons, List.lookup_cons]
      by_cases h : j = k
      · rw [if_pos h, beq_iff_eq.mpr h.symm]
      · rw [if_neg h, beq_eq_false_iff_ne.mpr (Ne.symm h)]
    · rw [if_neg hj, List.lookup_cons, List.lookup_cons, ih]
      by_cases h : j = k
      · have hk : ¬ kind = k := fun hk => hj (h.trans hk.symm)
        rw [beq_iff_eq.mpr h.symm, if_neg hk, if_neg hk]
      · rw [beq_eq_false_iff_ne.mpr (Ne.symm h)]

theorem nextClass_untagged (h : tag.getD [] = []) (s : Sheet) (kind : Text) :
    s.nextClass kind tag =
      (numbered kind (s.count kind + 1), { s with counters := setCount kind (s.count kind + 1) s.counters }) := by
  cases tag with
  | none => rfl
  | some t =>
    obtain rfl : t = [] := h
    rfl

theorem nextClass_tagged (h : tag.getD [] ≠ []) (s : Sheet) (kind : Text) : (s.nextClass kind tag).2 = s := by
  cases tag with
  | none => exact absurd rfl h
  | some t =>
    cases t with
    | nil => exact absurd rfl h
    | cons c t => rfl

theorem nextClass_frame (s : Sheet) (kind : Text) (tag : Option Text) :
    (s.nextClass kind tag).2 = { s with counters := (s.nextClass kind tag).2.counters } := by
  by_cases htag : tag.getD [] = []
  · rw [nextClass_untagged htag]
  · rw [nextClass_tagged htag]

/-- A class is numbered by counting it, and only an untagged element counts. -/
theorem count_nextClass (s : Sheet) (kind : Text) (tag : Option Text) (k : Text) :
    (s.nextClass kind tag).2.count k = s.count k + if kind = k ∧ tag.getD [] = [] then 1 else 0 := by
  by_cases htag : tag.getD [] = []
  · rw [nextClass_untagged htag, count, lookup_setCount]
    by_cases hk : kind = k
    · subst hk
      rw [if_pos rfl, if_pos ⟨rfl, htag⟩]
      rfl
    · rw [if_neg hk, if_neg fun h => hk h.1]
      rfl
  · rw [nextClass_tagged htag, if_neg fun h => htag h.2]
    rfl

/-! ### Rules -/

/-- The declarations of the rule of a selector. -/
def declarations (s : Sheet) (selector : Text) : List Style.Declaration :=
  ((s.rules.find? (·.selector = selector)).map (·.declarations)).getD []

theorem find?_declareIn (selector x : Text) (ds : List Style.Declaration) (rules : List StyleRule) :
    (((declareIn selector ds rules).find? (·.selector = x)).map (·.declarations)).getD [] =
      ((rules.find? (·.selector = x)).map (·.declarations)).getD [] ++ if selector = x then ds else [] := by
  induction rules with
  | nil => by_cases h : selector = x <;> simp [declareIn, h]
  | cons r rules ih =>
    rw [declareIn]
    by_cases hr : r.selector = selector
    · rw [if_pos hr]
      by_cases h : selector = x
      · simp [hr, h]
      · simp [hr, h]
    · rw [if_neg hr]
      by_cases hx : r.selector = x
      · have h : ¬ selector = x := fun h => hr (hx.trans h.symm)
        simp [hx, h]
      · rw [List.find?_cons_of_neg (by simpa using hx), List.find?_cons_of_neg (by simpa using hx), ih]

theorem declarations_declare (s : Sheet) (selector x : Text) (ds : List Style.Declaration) :
    (s.declare selector ds).declarations x = s.declarations x ++ if selector = x then ds else [] :=
  find?_declareIn selector x ds s.rules

/-- Adds declarations to the rule of a selector, one by one. -/
def declareEach (selector : Text) (ds : List Style.Declaration) (s : Sheet) : Sheet :=
  ds.foldl (fun s d => s.declare selector [d]) s

theorem declareEach_spec (selector : Text) (ds : List Style.Declaration) (s : Sheet) :
    (s.declareEach selector ds).counters = s.counters ∧ (s.declareEach selector ds).styled = s.styled ∧
      ∀ x, (s.declareEach selector ds).declarations x = s.declarations x ++ if selector = x then ds else [] := by
  induction ds generalizing s with
  | nil => simp [declareEach]
  | cons d ds ih =>
    obtain ⟨hcounters, hstyled, hrules⟩ := ih (s.declare selector [d])
    refine ⟨hcounters, hstyled, fun x => (hrules x).trans ?_⟩
    rw [declarations_declare]
    by_cases h : selector = x <;> simp [h]

theorem addDefaults_spec (cls kind : Text) (s : Sheet) :
    (s.addDefaults cls kind).counters = s.counters ∧
      (∀ c, (s.addDefaults cls kind).styled.contains c =
        (s.styled.contains c || (decide (c = cls) && !(Style.defaults kind).isEmpty))) ∧
      ∀ x, (s.addDefaults cls kind).declarations x =
        s.declarations x ++ if '.' :: cls = x ∧ s.styled.contains cls = false then Style.defaults kind else [] := by
  unfold addDefaults
  cases hdefaults : Style.defaults kind with
  | nil => simp
  | cons d ds =>
    cases hstyled : s.styled.contains cls with
    | true =>
      -- the class has its defaults already
      refine ⟨rfl, fun c => ?_, fun x => by simp⟩
      by_cases hc : c = cls
      · subst hc
        simpa using hstyled
      · simp [hc]
    | false =>
      -- the class gets its defaults, and is marked
      refine ⟨rfl, fun c => ?_, fun x => ?_⟩
      · simp [declare, eq_comm]
      · have hdeclare := declarations_declare { s with styled := s.styled ++ [cls] } ('.' :: cls) x (d :: ds)
        simpa [declarations] using hdeclare

/-- A new selector comes last. -/
theorem selectors_declareIn (selector : Text) (ds : List Style.Declaration) (rules : List StyleRule) :
    (declareIn selector ds rules).map (·.selector) =
      rules.map (·.selector) ++ if selector ∈ rules.map (·.selector) then [] else [selector] := by
  induction rules with
  | nil => rfl
  | cons r rules ih =>
    rw [declareIn]
    by_cases hr : r.selector = selector
    · simp [hr]
    · simp [hr, Ne.symm hr, ih]

theorem nodup_declare (selector : Text) (ds : List Style.Declaration) (h : s.selectors.Nodup) :
    (s.declare selector ds).selectors.Nodup := by
  show ((declareIn selector ds s.rules).map (·.selector)).Nodup
  rw [selectors_declareIn]
  by_cases hmem : selector ∈ s.rules.map (·.selector)
  · rw [if_pos hmem, List.append_nil]
    exact h
  · rw [if_neg hmem, List.nodup_append]
    refine ⟨h, List.nodup_singleton selector, ?_⟩
    rintro x hx y hy rfl
    rw [List.mem_singleton.mp hy] at hx
    exact hmem hx

theorem nodup_declareEach (selector : Text) (ds : List Style.Declaration) (h : s.selectors.Nodup) :
    (s.declareEach selector ds).selectors.Nodup := by
  induction ds generalizing s with
  | nil => exact h
  | cons d ds ih => exact ih (nodup_declare selector [d] h)

theorem nodup_addDefaults (cls kind : Text) (h : s.selectors.Nodup) : (s.addDefaults cls kind).selectors.Nodup := by
  unfold addDefaults
  split
  · exact h
  · split
    · exact h
    · exact nodup_declare (s := { s with styled := s.styled ++ [cls] }) _ _ h

end Sheet

namespace Component

/-! ### The sheet of an element -/

/-- The declaration that a static style property gives. -/
def staticStyle? (p : Property) : Option Style.Declaration :=
  match p.value with
  | .static v => if Style.isStyle p.key then some (Style.declaration p.key (some v)) else none
  | _ => none

/-- Styles are neither texts nor events. -/
theorem style_keys : ∀ key ∈ Style.keys, (key = "content" || key = "text") = false ∧ event? key = none := by
  decide +kernel

theorem Draft.sheet_apply (kind cls : Text) (d : Draft) (p : Property) :
    (d.apply kind cls p).sheet = (staticStyle? p).elim d.sheet fun δ => d.sheet.declare ('.' :: cls) [δ] := by
  by_cases hstyle : Style.isStyle p.key = true
  · -- a style property is neither text nor an event, and is declared if its value is static
    obtain ⟨htext, hevent⟩ := style_keys p.key (by simpa [Style.isStyle] using hstyle)
    rw [Draft.apply, if_neg (Bool.eq_false_iff.mp htext), hevent, staticStyle?]
    cases p.value with
    | flag => rfl
    | static v => simp [hstyle]
    | dynamic e =>
      simp only
      split
      · rfl
      · simp
  · -- any other property leaves the sheet alone, whichever branch it takes
    have hnone : staticStyle? p = none := by
      unfold staticStyle?
      split
      · exact if_neg hstyle
      · rfl
    rw [hnone, Draft.apply]
    split
    · split <;> rfl
    · split
      · split <;> rfl
      · split
        · rfl
        · split
          · rfl
          · rfl
        · rfl

theorem Draft.sheet_foldl (kind cls : Text) (ps : List Property) (d : Draft) :
    (ps.foldl (Draft.apply kind cls) d).sheet = d.sheet.declareEach ('.' :: cls) (ps.filterMap staticStyle?) := by
  induction ps generalizing d with
  | nil => rfl
  | cons p ps ih =>
    rw [List.foldl_cons, ih, Draft.sheet_apply]
    cases hp : staticStyle? p with
    | none =>
      rw [List.filterMap_cons_none hp]
      rfl
    | some δ =>
      rw [List.filterMap_cons_some hp]
      rfl

/-- The sheet of an element: its class is taken, gets the default style, and then the static styles one by one. -/
theorem sheet_drafted (sheet : Sheet) (kind : Text) (tag : Option Text) (properties : List Property) :
    (drafted sheet kind tag properties).sheet =
      ((sheet.nextClass kind tag).2.addDefaults (sheet.nextClass kind tag).1 kind).declareEach
        ('.' :: (sheet.nextClass kind tag).1) (properties.filterMap staticStyle?) :=
  Draft.sheet_foldl kind _ properties (started sheet kind tag)

end Component

/-! ### Elements -/

namespace Node

/-- An element of the kind that has no tag; an empty tag is none. -/
def isUntagged (kind : Text) : Node → Bool
  | .element k tag _ _ _ => k = kind && tag.getD [] = []
  | _ => false

theorem isElement_of_isUntagged {n : Node} {kind : Text} (hn : n.Named) (h : n.isUntagged kind = true) :
    Form.isElement kind = true := by
  cases n with
  | element k tag properties children l =>
    obtain ⟨hk, -⟩ := Bool.and_eq_true_iff.mp h
    rw [← of_decide_eq_true hk]
    exact hn.1
  | pseudo => cases h
  | condition => cases h
  | loop => cases h

/-- The default style of the kind of an element. -/
def defaults : Node → List Style.Declaration
  | .element kind _ _ _ _ => Style.defaults kind
  | _ => []

/-- The static styles of an element. -/
def staticStyles : Node → List Style.Declaration
  | .element _ _ properties _ _ => properties.filterMap Component.staticStyle?
  | _ => []

end Node

namespace Component

variable {s s' m : Sheet} {g : Classed} {gs gs' before after : List Classed} {kind cls : Text}

/-- The rule that elements of one class make, in order: their static styles, and the default style of the first that has
one; `styled` says that the class has one already. -/
def ruleOf (styled : Bool) : List Classed → List Style.Declaration
  | [] => []
  | g :: gs =>
    (if styled then [] else g.node.defaults) ++ g.node.staticStyles ++ ruleOf (styled || !g.node.defaults.isEmpty) gs

/-- What one element does to the sheet: it counts if it is untagged, and its class alone gets declarations. -/
theorem drafted_spec (s : Sheet) (kind : Text) (tag : Option Text) (properties : List Property) (cs : List Node)
    (l : Location) :
    (∀ k, (drafted s kind tag properties).sheet.count k =
      s.count k + if (Node.element kind tag properties cs l).isUntagged k then 1 else 0) ∧
    (∀ c, (drafted s kind tag properties).sheet.styled.contains c =
      (s.styled.contains c ||
        (decide (c = (s.nextClass kind tag).1) && !(Node.element kind tag properties cs l).defaults.isEmpty))) ∧
    ∀ c, (drafted s kind tag properties).sheet.declarations ('.' :: c) =
      s.declarations ('.' :: c) ++
        if (s.nextClass kind tag).1 = c then
          ruleOf (s.styled.contains c) [⟨c, .element kind tag properties cs l, true⟩]
        else [] := by
  rw [sheet_drafted]
  generalize hnext : s.nextClass kind tag = p
  obtain ⟨cls, s₁⟩ := p
  -- taking the next class moves a counter and nothing else
  have hframe : s₁.styled = s.styled ∧ ∀ x, s₁.declarations x = s.declarations x := by
    have h : s₁ = { s with counters := s₁.counters } := by
      have h := Sheet.nextClass_frame s kind tag
      rwa [hnext] at h
    rw [h]
    exact ⟨rfl, fun x => rfl⟩
  have hcount : ∀ k, s₁.count k = s.count k + if kind = k ∧ tag.getD [] = [] then 1 else 0 := by
    intro k
    rw [← Sheet.count_nextClass, hnext]
  obtain ⟨hcounters, hstyled, hrules⟩ := Sheet.addDefaults_spec cls kind s₁
  obtain ⟨hcounters', hstyled', hrules'⟩ :=
    Sheet.declareEach_spec ('.' :: cls) (properties.filterMap staticStyle?) (s₁.addDefaults cls kind)
  refine ⟨fun k => ?_, fun c => ?_, fun c => ?_⟩
  · rw [Sheet.count, hcounters', hcounters]
    exact (hcount k).trans (by simp [Node.isUntagged])
  · rw [hstyled', hstyled, hframe.1]
    rfl
  · rw [hrules', hrules, hframe.2, hframe.1]
    -- only the class of the element gets declarations
    by_cases hc : cls = c
    · subst hc
      cases hstyled₀ : s.styled.contains cls <;> simp [ruleOf, Node.defaults, Node.staticStyles]
    · simp [hc]

/-! ### Runs -/

/-- **Building as a run over the elements in order**: each element gets its class from the sheet as it is then; the
pseudo-classes come in between. -/
inductive Run : Sheet → List Classed → Sheet → Prop where
  | done (s : Sheet) : Run s [] s
  | element {s s' : Sheet} {gs : List Classed} {kind : Text} {tag : Option Text} {properties : List Property}
      {cs : List Node} {l : Location} {shown : Bool} (h : Run (drafted s kind tag properties).sheet gs s') :
      Run s (⟨(s.nextClass kind tag).1, .element kind tag properties cs l, shown⟩ :: gs) s'
  | pseudo {s s' : Sheet} {gs : List Classed} {cls selector : Text} {ds : List Style.Declaration}
      (h : Run (s.declare (pseudoSelector cls selector) ds) gs s') : Run s gs s'

theorem Run.append (h : Run s gs m) (h' : Run m gs' s') : Run s (gs ++ gs') s' := by
  induction h with
  | done s => exact h'
  | element _ ih => exact .element (ih h')
  | pseudo _ ih => exact .pseudo (ih h')

mutual

theorem run_build (shown : Bool) : ∀ (n : Node) (owner : Option Text) (sheet : Sheet),
    Run sheet (classed shown owner sheet n) (build owner sheet n).2
  | .element kind tag properties children l, owner, sheet => by
    rw [build_element, classed]
    exact .element (run_buildAll _ children _ _)
  | .pseudo selector properties l, owner, sheet => by
    cases owner with
    | none => exact .done sheet
    | some cls => exact .pseudo (.done _)
  | .condition branch children l, owner, sheet => by
    rw [build, classed]
    exact run_buildAll shown children owner sheet
  | .loop item index collection key children l, owner, sheet => by
    rw [build, classed]
    exact run_buildAll shown children owner sheet

/-- Building a forest runs over its elements. -/
theorem run_buildAll (shown : Bool) : ∀ (ns : List Node) (owner : Option Text) (sheet : Sheet),
    Run sheet (classedAll shown owner sheet ns) (buildAll owner sheet ns).2
  | [], owner, sheet => .done sheet
  | n :: ns, owner, sheet => by
    rw [buildAll, classedAll]
    exact (run_build shown n owner sheet).append (run_buildAll shown ns owner _)

end

/-- **An untagged element gets the next number of its kind.** -/
theorem Run.cls_eq (h : Run s (before ++ g :: after) s') (hg : g.node.isUntagged kind = true) :
    g.cls = Sheet.numbered kind (s.count kind + before.countP (·.node.isUntagged kind) + 1) := by
  generalize hgs : before ++ g :: after = gs at h
  induction h generalizing before with
  | done s => simp at hgs
  | @element s s' gs k tag properties cs l shown h ih =>
    cases before with
    | nil =>
      obtain ⟨rfl, -⟩ := List.cons.inj hgs
      obtain ⟨rfl, htag⟩ : k = kind ∧ tag.getD [] = [] := by simpa [Node.isUntagged] using hg
      rw [Sheet.nextClass_untagged htag, List.countP_nil, Nat.add_zero]
    | cons g₀ before =>
      obtain ⟨rfl, hrest⟩ := List.cons.inj hgs
      rw [ih hrest, (drafted_spec s k tag properties cs l).1 kind, List.countP_cons]
      exact congrArg (fun n => Sheet.numbered kind (n + 1)) (by dsimp only; omega)
  | pseudo h ih => exact ih hgs

/-- **The rule of a class** holds what the elements of that class declare, and nothing else.  The class has no colon, so
that no pseudo-class adds to its rule. -/
theorem Run.declarations_eq (h : Run s gs s') (hcolon : ':' ∉ cls) :
    s'.declarations ('.' :: cls) =
      s.declarations ('.' :: cls) ++ ruleOf (s.styled.contains cls) (gs.filter (·.cls = cls)) := by
  induction h with
  | done s => simp [ruleOf]
  | @element s s' gs k tag properties cs l shown h ih =>
    obtain ⟨-, hstyled, hrules⟩ := drafted_spec s k tag properties cs l
    rw [ih, hrules, hstyled]
    by_cases hcls : (s.nextClass k tag).1 = cls
    · rw [List.filter_cons_of_pos (by simpa using hcls), if_pos hcls, ruleOf, ruleOf, ruleOf, List.append_nil,
        decide_eq_true hcls.symm, Bool.true_and, List.append_assoc]
    · rw [List.filter_cons_of_neg (by simpa using hcls), if_neg hcls, List.append_nil,
        decide_eq_false (Ne.symm hcls), Bool.false_and, Bool.or_false]
  | @pseudo s s' gs cls' selector ds h ih =>
    have hne : pseudoSelector cls' selector ≠ '.' :: cls := by
      intro heq
      refine hcolon ?_
      rw [← (List.cons.inj heq).2]
      simp
    rw [ih, Sheet.declarations_declare, if_neg hne, List.append_nil]
    rfl

/-- Every selector has one rule. -/
theorem Run.nodup (h : Run s gs s') (hs : s.selectors.Nodup) : s'.selectors.Nodup := by
  induction h with
  | done s => exact hs
  | @element s s' gs k tag properties cs l shown h ih =>
    refine ih ?_
    rw [sheet_drafted]
    refine Sheet.nodup_declareEach _ _ (Sheet.nodup_addDefaults _ _ ?_)
    rw [Sheet.nextClass_frame]
    exact hs
  | pseudo h ih => exact ih (Sheet.nodup_declare _ _ hs)

end Component

/-! ### Documents -/

namespace Document

variable {d : Document}

theorem run_template (d : Document) : Component.Run {} d.classed d.template.2 :=
  Component.run_buildAll true d.children none {}

/-- **Untagged elements and their classes**, whatever the source.  Two of them have the same class exactly when their
kinds differ, but not in lower case, and each has as many untagged elements of its own kind before it.  The rule of such
a class, which is the only one with its selector, holds the declarations of the elements with that class. -/
theorem read_untagged_classes (filename : Option Text) (source : Text) :
    (∀ before g mid g' after kind kind', (read filename source).classed = before ++ g :: (mid ++ g' :: after) →
      g.node.isUntagged kind = true → g'.node.isUntagged kind' = true →
      (g.cls = g'.cls ↔ kind ≠ kind' ∧ Text.lower kind = Text.lower kind' ∧
        before.countP (·.node.isUntagged kind) = (before ++ g :: mid).countP (·.node.isUntagged kind'))) ∧
    (read filename source).template.2.selectors.Nodup ∧
    ∀ g ∈ (read filename source).classed, ∀ kind, g.node.isUntagged kind = true →
      (read filename source).template.2.declarations ('.' :: g.cls) =
        Component.ruleOf false ((read filename source).classed.filter (·.cls = g.cls)) := by
  have hnamed := read_named filename source
  generalize read filename source = d at hnamed
  have hrun := run_template d
  refine ⟨fun before g mid g' after kind kind' hd hg hg' => ?_, hrun.nodup .nil, fun g hmem kind hg => ?_⟩
  · have hfirst : Component.Run {} (before ++ g :: (mid ++ g' :: after)) d.template.2 := hd ▸ hrun
    have hsecond : Component.Run {} ((before ++ g :: mid) ++ g' :: after) d.template.2 := by
      rw [List.append_assoc, List.cons_append]
      exact hfirst
    have hzero : ∀ k, ({} : Sheet).count k = 0 := fun k => rfl
    rw [hfirst.cls_eq hg, hsecond.cls_eq hg', Sheet.numbered_eq_iff, hzero, hzero, Nat.add_right_cancel_iff,
      Nat.zero_add, Nat.zero_add]
    refine ⟨fun h => ⟨?_, h⟩, fun h => h.2⟩
    -- of one kind, the second element counts the first
    rintro rfl
    have hcount := h.2
    rw [List.countP_append, List.countP_cons, if_pos hg] at hcount
    omega
  · obtain ⟨before, after, hd⟩ := List.append_of_mem hmem
    have hfirst : Component.Run {} (before ++ g :: after) d.template.2 := hd ▸ hrun
    have hname := Node.isElement_of_isUntagged (Component.named_classedAll d.children hnamed g hmem) hg
    have hcolon : ':' ∉ g.cls := by
      rw [hfirst.cls_eq hg]
      exact Sheet.colon_not_mem_numbered hname _
    exact hrun.declarations_eq hcolon

/-- Kinds that differ in case only share a class and its rule. -/
theorem read_untagged_shared :
    (read none "Box\n  .color: \"red\"\nBOX\n  .color: \"blue\"").classed.map (·.cls) = ["box-1", "box-1"] ∧
    (read none "Box\n  .color: \"red\"\nBOX\n  .color: \"blue\"").template.2.rules =
      [⟨".box-1", [("color", "red"), ("color", "blue")]⟩] := by
  decide +kernel

end Document

end Trellis
