import Trellis.Proofs.CommentLines

/-!
# The lines of a function body

The statements of a function body are its lines, in their order: reading a body loses no line, repeats none and puts
none elsewhere.  Only an `else` that joins a condition is no statement of its own; the lines below it are the `else`
part of that condition.

* `preorder` lists the statements of a tree, each before the ones nested in it.
* `Block` relates a block of statements to its lines, marking the `else` lines that join a condition.
* `block_nest` finds the lines of a body again in what is read from them.
-/

namespace Trellis.Statement

/-! ### Statements in order -/

/-- Where a statement stands. -/
def location : Statement → Location
  | .comment _ location | .respond _ location | .respondBlock _ location => location
  | .raw _ _ location | .assign _ _ _ location | .cond _ _ _ location => location

/-- The statements nested under the line of a statement. -/
def body : Statement → List Statement
  | .raw _ body _ | .assign _ _ body _ | .cond _ body _ _ => body
  | .comment _ _ | .respond _ _ | .respondBlock _ _ => []

mutual

/-- The statements of a tree, each with the statements around it, innermost first.  A statement comes before its body,
and the body of a condition before its `else` part. -/
def preorder (above : List Statement) : Statement → List (Statement × List Statement)
  | .comment text l => [(.comment text l, above)]
  | .respond value l => [(.respond value l, above)]
  | .respondBlock block l => [(.respondBlock block l, above)]
  | .raw text body l => (.raw text body l, above) :: preorderAll (.raw text body l :: above) body
  | .assign target value body l =>
    (.assign target value body l, above) :: preorderAll (.assign target value body l :: above) body
  | .cond condition body orelse l =>
    (.cond condition body orelse l, above) ::
      (preorderAll (.cond condition body orelse l :: above) body ++
        preorderAll (.cond condition body orelse l :: above) orelse)

/-- The statements of a block in order. -/
def preorderAll (above : List Statement) : List Statement → List (Statement × List Statement)
  | [] => []
  | s :: ss => preorder above s ++ preorderAll above ss

end

theorem preorderAll_append (above ss us : List Statement) :
    preorderAll above (ss ++ us) = preorderAll above ss ++ preorderAll above us := by
  induction ss with
  | nil => rfl
  | cons s ss ih => rw [List.cons_append, preorderAll, preorderAll, ih, List.append_assoc]

theorem preorderAll_singleton (above : List Statement) (s : Statement) : preorderAll above [s] = preorder above s := by
  rw [preorderAll, preorderAll, List.append_nil]

mutual

/-- Which statements there are does not hang on what stands around the tree. -/
theorem statements_preorder (above above' : List Statement) :
    ∀ s : Statement, (preorder above s).map (·.1) = (preorder above' s).map (·.1)
  | .comment _ _ | .respond _ _ | .respondBlock _ _ => by simp only [preorder, List.map_cons, List.map_nil]
  | .raw text body l => by
    simp only [preorder, List.map_cons,
      statements_preorderAll (.raw text body l :: above) (.raw text body l :: above') body]
  | .assign target value body l => by
    simp only [preorder, List.map_cons, statements_preorderAll (.assign target value body l :: above)
      (.assign target value body l :: above') body]
  | .cond condition body orelse l => by
    simp only [preorder, List.map_cons, List.map_append,
      statements_preorderAll (.cond condition body orelse l :: above) (.cond condition body orelse l :: above') body,
      statements_preorderAll (.cond condition body orelse l :: above) (.cond condition body orelse l :: above') orelse]

theorem statements_preorderAll (above above' : List Statement) :
    ∀ ss : List Statement, (preorderAll above ss).map (·.1) = (preorderAll above' ss).map (·.1)
  | [] => by simp only [preorderAll]
  | s :: ss => by
    simp only [preorderAll, List.map_append, statements_preorder above above' s, statements_preorderAll above above' ss]

end

/-- The places of the statements of a block, in order. -/
def places (ss : List Statement) : List Location := (preorderAll [] ss).map (·.1.location)

theorem places_eq (above ss : List Statement) : (preorderAll above ss).map (·.1.location) = places ss := by
  have hstatements := congrArg (List.map location) (statements_preorderAll above [] ss)
  rwa [List.map_map, List.map_map] at hstatements

theorem places_append (ss us : List Statement) : places (ss ++ us) = places ss ++ places us := by
  rw [places, preorderAll_append, List.map_append]
  rfl

theorem places_cond (condition : Text) (body orelse : List Statement) (l : Location) :
    places [.cond condition body orelse l] = l :: (places body ++ places orelse) := by
  rw [places, preorderAll_singleton, preorder, List.map_cons, List.map_append, places_eq, places_eq]
  rfl

/-! ### Blocks of lines -/

/-- A line of a body, and whether it joined the condition before it. -/
structure Entry where
  line : BodyLine
  joined : Bool
  deriving DecidableEq, Repr

/-- The lines that are statements of their own. -/
def ownLines (es : List Entry) : List BodyLine := (es.filter fun e => !e.joined).map (·.line)

/-- A block of statements and its lines, line by line: a comment is a statement, any other line is a statement over the
block of deeper lines below it.  An `else` directly behind the lines of a condition that has no `else` part so far may
join it; the block of deeper lines below the `else` is then that part. -/
inductive Block (filename : Option Text) : List Entry → List Statement → Prop
  | nil : Block filename [] []
  | append {xs ys : List Entry} {ss us : List Statement} :
      Block filename xs ss → Block filename ys us → Block filename (xs ++ ys) (ss ++ us)
  | comment {l : BodyLine} (hl : l.isComment = true) : Block filename [⟨l, false⟩] [ofComment filename l]
  | line {l : BodyLine} (hl : l.isComment = false) {below : List Entry} {body : List Statement}
      (hdeep : ∀ e ∈ below, l.indent < e.line.indent) :
      Block filename below body → Block filename (⟨l, false⟩ :: below) [ofLine filename l body]
  | joined {l : BodyLine} (hl : l.isComment = false) (helse : l.code = "else") {front below : List Entry}
      {condition : Text} {body orelse : List Statement} {location : Location}
      (hdeep : ∀ e ∈ below, l.indent < e.line.indent) :
      Block filename front [.cond condition body [] location] → Block filename below orelse →
      Block filename (front ++ ⟨l, true⟩ :: below) [.cond condition body orelse location]

theorem ownLines_append (xs ys : List Entry) : ownLines (xs ++ ys) = ownLines xs ++ ownLines ys := by
  rw [ownLines, List.filter_append, List.map_append]
  rfl

theorem exists_entry_of_mem_ownLines {es : List Entry} {l : BodyLine} (h : l ∈ ownLines es) :
    ∃ e ∈ es, e.line = l := by
  obtain ⟨e, he, rfl⟩ := List.mem_map.mp h
  exact ⟨e, List.mem_of_mem_filter he, rfl⟩

section

variable {filename : Option Text} {l : BodyLine} {es : List Entry} {ss body : List Statement}

theorem location_ofLine (filename : Option Text) (l : BodyLine) (b : List Statement) :
    (ofLine filename l b).location = locate filename l := by
  unfold ofLine
  split
  · rfl
  · split <;> rfl

theorem body_ofLine (filename : Option Text) (l : BodyLine) (b : List Statement) : (ofLine filename l b).body = b := by
  unfold ofLine
  split
  · rfl
  · split <;> rfl

theorem preorder_ofLine (filename : Option Text) (l : BodyLine) (above b : List Statement) :
    preorder above (ofLine filename l b) =
      (ofLine filename l b, above) :: preorderAll (ofLine filename l b :: above) b := by
  unfold ofLine
  split
  · rw [preorder, preorderAll, List.append_nil]
  · split
    · rw [preorder]
    · rw [preorder]

/-- The statements of a block stand where its lines stand that are statements of their own, in the same order. -/
theorem Block.places (h : Block filename es ss) : places ss = (ownLines es).map (locate filename) := by
  induction h with
  | nil => rfl
  | append _ _ hx hy => rw [places_append, ownLines_append, List.map_append, hx, hy]
  | comment hl => rfl
  | line hl hdeep _ ih =>
    rw [Statement.places, preorderAll_singleton, preorder_ofLine, List.map_cons, places_eq, ih, location_ofLine]
    rfl
  | joined hl helse hdeep _ _ hfront hbelow =>
    rw [places_cond] at hfront ⊢
    rw [ownLines_append, List.map_append, ← hfront, hbelow]
    simp [Statement.places, preorderAll, ownLines]

/-- Every statement of a block stands where one of the lines stands. -/
theorem Block.exists_entry (h : Block filename es ss) {above : List Statement} {v : Statement × List Statement}
    (hv : v ∈ preorderAll above ss) : ∃ e ∈ es, v.1.location = locate filename e.line := by
  have hplace : v.1.location ∈ (preorderAll above ss).map (·.1.location) := List.mem_map_of_mem hv
  rw [places_eq, h.places] at hplace
  obtain ⟨l, hl, hloc⟩ := List.mem_map.mp hplace
  obtain ⟨e, he, rfl⟩ := exists_entry_of_mem_ownLines hl
  exact ⟨e, he, hloc.symm⟩

/-- What is nested under a statement, at any depth, stands to the right of it. -/
def Indented (ss : List Statement) : Prop :=
  ∀ above, ∀ v ∈ preorderAll above ss, ∀ around, ∀ w ∈ preorderAll around v.1.body,
    v.1.location.column < w.1.location.column

theorem Block.indented (h : Block filename es ss) : Indented ss := by
  induction h with
  | nil =>
    intro above v hv
    cases hv
  | append _ _ hx hy =>
    intro above v hv
    rw [preorderAll_append, List.mem_append] at hv
    exact hv.elim (hx above v) (hy above v)
  | comment hl =>
    intro above v hv around w hw
    obtain rfl := List.mem_singleton.mp hv
    cases hw
  | @line l hl below body hdeep hblock ih =>
    intro above v hv around w hw
    rw [preorderAll_singleton, preorder_ofLine, List.mem_cons] at hv
    rcases hv with rfl | hv
    · rw [body_ofLine] at hw
      obtain ⟨e, he, hloc⟩ := hblock.exists_entry hw
      have hlt := hdeep e he
      rw [location_ofLine, hloc]
      show l.indent + 1 < e.line.indent + 1
      omega
    · exact ih _ v hv around w hw
  | @joined l hl helse front below condition body orelse location hdeep _ _ hfront hbelow =>
    intro above v hv around w hw
    have hcond := hfront above
    rw [preorderAll_singleton, preorder] at hcond hv
    simp only [List.mem_cons, List.mem_append] at hcond hv
    rcases hv with rfl | hv | hv
    · -- the condition has the body that it had before the line joined it
      exact hcond _ (.inl rfl) around w hw
    · have hmem : v.1 ∈ (preorderAll (.cond condition body [] location :: above) body).map (·.1) := by
        rw [statements_preorderAll _ (.cond condition body orelse location :: above)]
        exact List.mem_map_of_mem hv
      obtain ⟨v', hv', heq⟩ := List.mem_map.mp hmem
      rw [← heq] at hw ⊢
      exact hcond v' (.inr (.inl hv')) around w hw
    · exact hbelow _ v hv around w hw

end

/-! ### Reading a body -/

/-- The statements read from lines, behind a statement with lines of its own that an `else` may still join. -/
theorem block_nest (filename : Option Text) (lines : List BodyLine) {front : List Entry} {previous : Option Statement}
    (hfront : Block filename front previous.toList) :
    ∃ es : List Entry, es.map (·.line) = lines ∧
      Block filename (front ++ es) (readForest filename previous (LineTree.nest BodyLine.isComment lines)) := by
  induction lines using LineTree.nest.induct BodyLine.isComment generalizing front previous with
  | case1 =>
    refine ⟨[], rfl, ?_⟩
    rw [LineTree.nest_nil, readForest, List.append_nil]
    exact hfront
  | case2 l ls hl ih =>
    -- a comment closes what is before it and is itself before the rest
    have hcomment : Block filename [⟨l, false⟩] (some (ofComment filename l)).toList := .comment hl
    obtain ⟨es, hes, hblock⟩ := ih hcomment
    refine ⟨⟨l, false⟩ :: es, by rw [List.map_cons, hes], ?_⟩
    rw [LineTree.nest_leaf hl, readForest_comment hl]
    exact hfront.append hblock
  | case3 l ls hl ihTake ihDrop =>
    have hl' : l.isComment = false := by simpa using hl
    have hnil : Block filename [] (none : Option Statement).toList := .nil
    obtain ⟨below, hbelow, hinner⟩ := ihTake hnil
    have hdeep : ∀ e ∈ below, l.indent < e.line.indent := by
      intro e he
      have hline : e.line ∈ ls.takeWhile fun x => decide (l.indent < x.indent) := hbelow ▸ List.mem_map_of_mem he
      have hlt := List.mem_takeWhile_imp hline
      exact of_decide_eq_true hlt
    have hsplit := List.takeWhile_append_dropWhile (p := fun x => decide (l.indent < x.indent)) (l := ls)
    rw [List.nil_append] at hinner
    rw [LineTree.nest_inner hl']
    rcases joinElse?_cases previous l with ⟨condition, b, location, rfl, helse, hjoin⟩ | hnone
    · -- an `else` joins the condition before it, with all its lines
      have hjoined : Block filename _ (some (.cond condition b _ location)).toList :=
        .joined hl' helse hdeep hfront hinner
      obtain ⟨es, hes, hblock⟩ := ihDrop hjoined
      refine ⟨⟨l, true⟩ :: (below ++ es), by rw [List.map_cons, List.map_append, hbelow, hes, hsplit], ?_⟩
      rw [readForest_joined hl' (hjoin _)]
      rw [List.append_assoc] at hblock
      exact hblock
    · -- a line of its own, which an `else` may join next
      have hline : Block filename _ (some (ofLine filename l _)).toList := .line hl' hdeep hinner
      obtain ⟨es, hes, hblock⟩ := ihDrop hline
      refine ⟨⟨l, false⟩ :: (below ++ es), by rw [List.map_cons, List.map_append, hbelow, hes, hsplit], ?_⟩
      rw [readForest_own hl' (hnone _)]
      exact hfront.append hblock

/-- **The statements of a function body are its lines.**  In order, they stand where the lines stand, each line once,
but for the `else` lines that joined the condition directly before them in their block; and what is nested under a
statement stands to the right of it. -/
theorem readBody_lines (filename : Option Text) (lines : List BodyLine) (hpos : ∀ l ∈ lines, 0 ≤ l.indent) :
    ∃ es : List Entry, es.map (·.line) = lines ∧ Block filename es (readBody filename lines) ∧
      (preorderAll [] (readBody filename lines)).map (·.1.location) = (ownLines es).map (locate filename) ∧
      ∀ v ∈ preorderAll [] (readBody filename lines), ∀ w ∈ preorderAll [] v.1.body,
        v.1.location.column < w.1.location.column := by
  have hnil : Block filename [] (none : Option Statement).toList := .nil
  obtain ⟨es, hes, hblock⟩ := block_nest filename lines hnil
  rw [List.nil_append] at hblock
  refine ⟨es, hes, ?_⟩
  rw [readBody, reachable_of_nonneg hpos]
  exact ⟨hblock, hblock.places, fun v hv => hblock.indented [] v hv []⟩

/-- An `else` that stands less deep than its `if`, with a line below it that does too. -/
theorem readBody_lines_dedent :
    let lines : List BodyLine :=
      [⟨1, 4, "    if a"⟩, ⟨2, 6, "      x = 1"⟩, ⟨3, 2, "  else # no"⟩, ⟨4, 3, "   y = 2"⟩, ⟨5, 0, "else"⟩]
    (∀ l ∈ lines, 0 ≤ l.indent) ∧ ∃ es : List Entry, es.map (·.line) = lines ∧ Block none es (readBody none lines) ∧
      (ownLines es).map (·.line) = [1, 2, 4, 5] := by
  intro lines
  have hpos : ∀ l ∈ lines, 0 ≤ l.indent := by decide +kernel
  have hplaces : (places (readBody none lines)).map (·.line) = [1, 2, 4, 5] := by decide +kernel
  obtain ⟨es, hes, hblock, hown, -⟩ := readBody_lines none lines hpos
  refine ⟨hpos, es, hes, hblock, ?_⟩
  rw [← hplaces, places, hown, List.map_map]
  rfl

end Trellis.Statement
