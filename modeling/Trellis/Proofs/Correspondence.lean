import Trellis.Document.Read
import Trellis.Proofs.BlockOrder
import Trellis.Proofs.View

/-!
# Corresponding bodies

A `Correspondence` pairs lines of one source with lines of another that a reader cannot tell apart: they have the same
code, their indents are in the same order, and two views make the same of their places and of what is reported about
them.  Bodies whose lines correspond are read alike: the statements, service methods, literal blocks and reports of
one, seen through the first view, are those of the other, seen through the second.
-/

namespace Trellis

/-- Lines of two sources that correspond, where the first source is seen through `V` and the second through `W`. -/
structure Correspondence (filename : Option Text) (V W : View) where
  /-- The two lines correspond. -/
  Line : BodyLine → BodyLine → Prop
  line : ∀ {l m}, Line l m → V.line l = W.line m
  place : ∀ {l m}, Line l m → V.place (Statement.locate filename l) = W.place (Statement.locate filename m)
  report : ∀ {l m}, Line l m → ∀ p : Problem,
    V.report (p.diagnose filename l.line l.raw) = W.report (p.diagnose filename m.line m.raw)
  code : ∀ {l m}, Line l m → l.code = m.code
  isComment : ∀ {l m}, Line l m → l.isComment = m.isComment
  comment : ∀ {l m}, Line l m → l.isComment = true → l.text = m.text
  nonneg : ∀ {l m}, Line l m → 0 ≤ l.indent ∧ 0 ≤ m.indent
  order : ∀ {l m l' m'}, Line l m → Line l' m' → (l.indent < l'.indent ↔ m.indent < m'.indent)

namespace Correspondence

variable {filename : Option Text} {V W : View} (K : Correspondence filename V W) {l m : BodyLine}
  {ls ms : List BodyLine}

theorem map_line (h : List.Forall₂ K.Line ls ms) : ls.map V.line = ms.map W.line := by
  rw [← List.forall₂_eq_eq_eq, List.forall₂_map_left_iff, List.forall₂_map_right_iff]
  exact h.imp fun l m hl => K.line hl

/-! ### Single lines -/

theorem ofComment (h : K.Line l m) (hc : l.isComment = true) :
    V.statement (Statement.ofComment filename l) = W.statement (Statement.ofComment filename m) := by
  simp only [Statement.ofComment, View.statement, K.comment h hc, K.place h]

theorem ofLine (h : K.Line l m) {b b' : List Statement} (hb : V.statements b = W.statements b') :
    V.statement (Statement.ofLine filename l b) = W.statement (Statement.ofLine filename m b') := by
  unfold Statement.ofLine
  rw [← K.code h]
  split
  · simp only [View.statement, View.statements, hb, K.place h]
  · split <;> simp only [View.statement, hb, K.place h]

theorem ofRouteLine (h : K.Line l m) (block : Literal) {b b' : List Statement}
    (hb : V.statements b = W.statements b') :
    V.statement (Statement.ofRouteLine filename block l b) = W.statement (Statement.ofRouteLine filename block m b') := by
  unfold Statement.ofRouteLine
  rw [← K.code h]
  split
  · simp only [View.statement, K.place h]
  · simp only [View.statement, K.place h]
  · simp only [View.statement, hb, K.place h]

/-- Whether an `else` joins a statement can be seen through a view. -/
theorem joinElse?_view (V : View) (previous : Option Statement) (l : BodyLine) (b : List Statement) :
    (Statement.joinElse? previous l b).map V.statement =
      Statement.joinElse? (previous.map V.statement) l (V.statements b) := by
  unfold Statement.joinElse?
  split
  · cases previous with
    | none => rfl
    | some s =>
      cases s with
      | cond c body orelse loc => cases orelse <;> rfl
      | _ => rfl
  · rfl

theorem joinElse? (h : K.Line l m) {p p' : Option Statement} (hp : p.map V.statement = p'.map W.statement)
    {b b' : List Statement} (hb : V.statements b = W.statements b') :
    (Statement.joinElse? p l b).map V.statement = (Statement.joinElse? p' m b').map W.statement := by
  rw [joinElse?_view, joinElse?_view, hp, hb]
  unfold Statement.joinElse?
  rw [K.code h]

/-! ### Function bodies -/

theorem takeWhile_dropWhile (h : K.Line l m) (hs : List.Forall₂ K.Line ls ms) :
    List.Forall₂ K.Line (ls.takeWhile fun x => l.indent < x.indent) (ms.takeWhile fun x => m.indent < x.indent) ∧
    List.Forall₂ K.Line (ls.dropWhile fun x => l.indent < x.indent) (ms.dropWhile fun x => m.indent < x.indent) :=
  forall₂_takeWhile_dropWhile (fun _ _ hxy => decide_eq_decide.mpr (K.order h hxy)) hs

theorem statements_toList {p p' : Option Statement} (hp : p.map V.statement = p'.map W.statement) :
    V.statements p.toList = W.statements p'.toList := by
  rw [View.statements_eq_map, View.statements_eq_map, ← Option.toList_map, ← Option.toList_map, hp]

theorem statements_append (V : View) (ss ts : List Statement) :
    V.statements (ss ++ ts) = V.statements ss ++ V.statements ts := by
  rw [View.statements_eq_map, View.statements_eq_map, View.statements_eq_map, List.map_append]

theorem readForest (hs : List.Forall₂ K.Line ls ms) {p p' : Option Statement}
    (hp : p.map V.statement = p'.map W.statement) :
    V.statements (Statement.readForest filename p (LineTree.nest BodyLine.isComment ls)) =
      W.statements (Statement.readForest filename p' (LineTree.nest BodyLine.isComment ms)) := by
  induction ls using LineTree.nest.induct BodyLine.isComment generalizing ms p p' with
  | case1 =>
    cases hs
    rw [LineTree.nest]
    exact statements_toList hp
  | case2 l ls hc ih =>
    -- a comment; it stands alone, and no `else` behind it joins what is before it
    cases hs with
    | cons h hs =>
      rename_i m ms
      have hc' : m.isComment = true := K.isComment h ▸ hc
      rw [LineTree.nest, if_pos hc, LineTree.nest, if_pos hc']
      simp only [Statement.readForest, if_pos hc, if_pos hc', statements_append, statements_toList hp]
      have hcomment : (some (Statement.ofComment filename l)).map V.statement =
          (some (Statement.ofComment filename m)).map W.statement := congrArg some (K.ofComment h hc)
      rw [ih hs hcomment]
  | case3 l ls hc ihbelow ihbeyond =>
    -- a line of code with the lines below it; it may join the condition before it
    cases hs with
    | cons h hs =>
      rename_i m ms
      have hc' : ¬ m.isComment = true := K.isComment h ▸ hc
      obtain ⟨hbelow, hbeyond⟩ := K.takeWhile_dropWhile h hs
      rw [LineTree.nest, if_neg hc, LineTree.nest, if_neg hc']
      simp only [Statement.readForest, if_neg hc, if_neg hc', Statement.readBelow]
      have hnone : (none : Option Statement).map V.statement = (none : Option Statement).map W.statement := rfl
      have hb := ihbelow hbelow hnone
      generalize Statement.readForest filename none (LineTree.nest BodyLine.isComment
        (ls.takeWhile fun x => l.indent < x.indent)) = b at hb ⊢
      generalize Statement.readForest filename none (LineTree.nest BodyLine.isComment
        (ms.takeWhile fun x => m.indent < x.indent)) = b' at hb ⊢
      have hj := K.joinElse? h hp hb
      cases hl : Statement.joinElse? p l b with
      | none =>
        -- the line is a statement of its own
        rw [hl] at hj
        rw [Option.map_eq_none_iff.mp hj.symm]
        simp only [statements_append, statements_toList hp]
        have hline : (some (Statement.ofLine filename l b)).map V.statement =
            (some (Statement.ofLine filename m b')).map W.statement := congrArg some (K.ofLine h hb)
        rw [ihbeyond hbeyond hline]
      | some j =>
        -- the line is an `else`, and the condition goes on
        rw [hl] at hj
        obtain ⟨j', hm, hj'⟩ := Option.map_eq_some_iff.mp hj.symm
        rw [hm]
        exact ihbeyond hbeyond (by simp [hj'])

/-- Lines read from a source are never indented less than zero. -/
theorem reachable (hs : List.Forall₂ K.Line ls ms) : Statement.reachable ls = ls ∧ Statement.reachable ms = ms := by
  unfold Statement.reachable
  induction hs with
  | nil => exact ⟨rfl, rfl⟩
  | @cons l m ls ms h _ ih =>
    obtain ⟨hl, hm⟩ := K.nonneg h
    rw [List.takeWhile_cons_of_pos (by simpa using by omega), List.takeWhile_cons_of_pos (by simpa using by omega),
      ih.1, ih.2]
    exact ⟨rfl, rfl⟩

/-- Function bodies whose lines correspond are read alike. -/
theorem readBody (hs : List.Forall₂ K.Line ls ms) :
    V.statements (Statement.readBody filename ls) = W.statements (Statement.readBody filename ms) := by
  unfold Statement.readBody
  rw [(K.reachable hs).1, (K.reachable hs).2]
  exact K.readForest hs rfl

/-! ### Route bodies -/

theorem isReturn (h : K.Line l m) : Statement.isReturn l = Statement.isReturn m := by
  unfold Statement.isReturn
  rw [K.isComment h, K.code h]

theorem isBareReturn (h : K.Line l m) : Statement.isBareReturn l = Statement.isBareReturn m := by
  unfold Statement.isBareReturn
  rw [K.isComment h, K.code h]

theorem cutAtReturn (hs : List.Forall₂ K.Line ls ms) :
    List.Forall₂ K.Line (Statement.cutAtReturn ls).1 (Statement.cutAtReturn ms).1 ∧
      List.Forall₂ K.Line (Statement.cutAtReturn ls).2 (Statement.cutAtReturn ms).2 := by
  induction hs with
  | nil => exact ⟨.nil, .nil⟩
  | @cons l m ls ms h hs ih =>
    obtain ⟨hl, hm⟩ := K.nonneg h
    have hl' : ¬ l.indent ≤ -1 := by omega
    have hm' : ¬ m.indent ≤ -1 := by omega
    simp only [Statement.cutAtReturn, if_neg hl', if_neg hm', ← K.isBareReturn h]
    split
    · exact ⟨.cons h .nil, hs⟩
    · exact ⟨.cons h ih.1, ih.2⟩

/-- The leaves of a route body. -/
def routeLeaf (l : BodyLine) : Bool := l.isComment || Statement.isReturn l

theorem routeLeaf_eq (h : K.Line l m) : routeLeaf l = routeLeaf m := by
  unfold routeLeaf
  rw [K.isComment h, K.isReturn h]

theorem readRouteTree (block : Literal) (h : K.Line l m) {b b' : List LineTree}
    (hb : V.statements (Statement.readRouteForest filename block b) =
      W.statements (Statement.readRouteForest filename block b')) :
    V.statement (Statement.readRouteTree filename block (.node l b)) =
      W.statement (Statement.readRouteTree filename block (.node m b')) := by
  unfold Statement.readRouteTree
  rw [← K.isComment h]
  split
  · exact K.ofComment h ‹_›
  · exact K.ofRouteLine h block hb

theorem readRouteForest (block : Literal) (hs : List.Forall₂ K.Line ls ms) :
    V.statements (Statement.readRouteForest filename block (LineTree.nest routeLeaf ls)) =
      W.statements (Statement.readRouteForest filename block (LineTree.nest routeLeaf ms)) := by
  induction ls using LineTree.nest.induct routeLeaf generalizing ms with
  | case1 =>
    cases hs
    rw [LineTree.nest]
    rfl
  | case2 l ls hc ih =>
    -- a leaf has no lines below it
    cases hs with
    | cons h hs =>
      rename_i m ms
      rw [LineTree.nest, if_pos hc, LineTree.nest, if_pos (K.routeLeaf_eq h ▸ hc)]
      simp only [Statement.readRouteForest, View.statements, ih hs]
      have hnil : V.statements (Statement.readRouteForest filename block []) =
          W.statements (Statement.readRouteForest filename block []) := rfl
      rw [K.readRouteTree block h hnil]
  | case3 l ls hc ihbelow ihbeyond =>
    cases hs with
    | cons h hs =>
      rename_i m ms
      obtain ⟨hbelow, hbeyond⟩ := K.takeWhile_dropWhile h hs
      rw [LineTree.nest, if_neg hc, LineTree.nest, if_neg (K.routeLeaf_eq h ▸ hc)]
      simp only [Statement.readRouteForest, View.statements, ihbeyond hbeyond]
      rw [K.readRouteTree block h (ihbelow hbelow)]

/-- Route bodies whose lines correspond are read alike. -/
theorem readRouteBody (hs : List.Forall₂ K.Line ls ms) :
    V.statements (Statement.readRouteBody filename ls).1 = W.statements (Statement.readRouteBody filename ms).1 ∧
      List.Forall₂ (Literal.BlockReport.Like K.Line) (Statement.readRouteBody filename ls).2
        (Statement.readRouteBody filename ms).2 := by
  obtain ⟨hcode, hblock⟩ := K.cutAtReturn hs
  have hagree := Literal.readBlock_like K.code K.isComment K.order hblock
  refine ⟨?_, hagree.reports⟩
  show V.statements (Statement.readRouteForest filename (Literal.readBlock (Statement.cutAtReturn ls).2).1.tree
      (LineTree.nest routeLeaf (Statement.cutAtReturn ls).1)) = _
  rw [hagree.tree]
  exact K.readRouteForest _ hcode

/-- What is reported about corresponding lines of literal blocks. -/
theorem blockReports {bs cs : List Literal.BlockReport} (h : List.Forall₂ (Literal.BlockReport.Like K.Line) bs cs) :
    (bs.map fun b => (Problem.block b.fault).diagnose filename b.origin.line b.origin.raw).map V.report =
      (cs.map fun b => (Problem.block b.fault).diagnose filename b.origin.line b.origin.raw).map W.report := by
  rw [List.map_map, List.map_map, ← List.forall₂_eq_eq_eq, List.forall₂_map_left_iff, List.forall₂_map_right_iff]
  refine h.imp fun b c hb => ?_
  simp only [Function.comp_apply, hb.fault, K.report hb.origin]

/-! ### Service bodies -/

/-- Service bodies whose lines correspond are read alike. -/
theorem readMethods (hs : List.Forall₂ K.Line ls ms) :
    (Document.Reading.readMethods filename ls).1.map V.serviceMethod =
        (Document.Reading.readMethods filename ms).1.map W.serviceMethod ∧
      (Document.Reading.readMethods filename ls).2.map V.report =
        (Document.Reading.readMethods filename ms).2.map W.report := by
  induction hs with
  | nil => exact ⟨rfl, rfl⟩
  | @cons l m ls ms h _ ih =>
    obtain ⟨hmethods, hreports⟩ := ih
    simp only [Document.Reading.readMethods, ← K.isComment h, ← K.code h]
    split
    · exact ⟨hmethods, hreports⟩
    · split
      · exact ⟨by simp only [List.map_cons, View.serviceMethod, K.place h, hmethods], hreports⟩
      · exact ⟨hmethods, by simp only [List.map_cons, K.report h, hreports]⟩

end Correspondence

end Trellis
