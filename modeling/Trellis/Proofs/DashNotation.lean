import Trellis.Proofs.BlockLayout

/-!
# Objects behind a dash

An object in a list has a second notation, in which the first line of its block stands behind the dash.  The reader has
to guess where that line would stand, and takes the least indent of the lines below.  So the notations agree exactly
when the value of the first entry stands on its line or the object has another entry (`dash_notations`); an object whose
only entry holds a block is read as another one (`dash_before_nested_entry`).
-/

namespace Trellis.Literal

variable {k : Text} {v : Literal} {es : List (Text × Literal)} {o : BodyLine} {d : Int}

/-- An object as an item, with the first line of its block behind the dash. -/
def compactItem (d : Int) (k : Text) (v : Literal) (es : List (Text × Literal)) : List (Int × Text) :=
  (d, dashed (entryLine k v)) :: (layoutEntries (d + 2) ((k, v) :: es)).tail

theorem foldl_min_eq {m a : Int} {es : List Entry} (ha : m ≤ a) (hes : ∀ e ∈ es, m ≤ e.indent)
    (hm : a = m ∨ ∃ e ∈ es, e.indent = m) : es.foldl (fun m x => min m x.indent) a = m := by
  induction es generalizing a with
  | nil => simpa using hm
  | cons e es ih =>
    obtain ⟨he, hes⟩ := List.forall_mem_cons.mp hes
    refine ih (Int.le_min.mpr ⟨ha, he⟩) hes ?_
    rcases hm with rfl | ⟨x, hx, rfl⟩
    · exact .inl (Int.min_eq_left he)
    · rcases List.mem_cons.mp hx with rfl | hx
      · exact .inl (Int.min_eq_right ha)
      · exact .inr ⟨x, hx, rfl⟩

theorem leastIndent_eq {m : Int} (default : Int) {es : List Entry} (hle : ∀ e ∈ es, m ≤ e.indent)
    (hm : ∃ e ∈ es, e.indent = m) : leastIndent default es = m := by
  cases es with
  | nil => simp at hm
  | cons e es =>
    obtain ⟨he, hes⟩ := List.forall_mem_cons.mp hle
    refine foldl_min_eq he hes ?_
    obtain ⟨x, hx, hm⟩ := hm
    rcases List.mem_cons.mp hx with rfl | hx
    · exact .inl hm
    · exact .inr ⟨x, hx, hm⟩

/-- The item that the reader makes of an object whose first line stands behind the dash. -/
def compactAt (o : BodyLine) (d : Int) (k : Text) (v : Literal) (es : List (Text × Literal)) : Item :=
  ⟨d, entryLine k v, o, entriesAt o (layout (d + 2 + 2) v ++ layoutEntries (d + 2) es)⟩

theorem readItem_compactAt (hk : isKeyText k = true) (hv : v.isWritable = true) :
    readItem (compactAt o d k v es) = readEntries (compactAt o d k v es).opened := by
  obtain ⟨hne, -⟩ := isCode_entryLine hk hv
  obtain ⟨r, hline, -⟩ := entryLine_eq k hv
  have hcolon : (findUnquoted ':' (entryLine k v)).isNone = false := by
    rw [hline, findUnquoted_bare_append (bare_of_isKeyText hk).1]
    simp [findUnquoted, findUnquotedFrom, isQuote]
  have hempty : (entryLine k v).isEmpty = false := List.isEmpty_eq_false_iff.mpr hne
  unfold readItem compactAt
  simp [hempty, hcolon]

theorem indent_compactAt (o : BodyLine) (d : Int) (k : Text) (v : Literal) (es : List (Text × Literal)) :
    ∀ e ∈ (compactAt o d k v es).below, d + 2 ≤ e.indent := by
  refine List.forall_mem_map.mpr (List.forall_mem_append.mpr ⟨fun l hl => ?_, le_indent_layoutEntries (d + 2) es⟩)
  have hle := le_indent_layout (d + 2 + 2) v l hl
  show d + 2 ≤ l.1
  omega

/-- With another entry below it, or with nothing below it, the first line is where it was. -/
theorem reads_compactAt (hobject : isWritable (.object ((k, v) :: es)) = true) (h : v.isScalar = true ∨ es ≠ []) :
    Reads (readItem (compactAt o d k v es)) (.object ((k, v) :: es)) := by
  obtain ⟨⟨hk, hv⟩, -⟩ := isWritable_object_cons.mp hobject
  have hleast : leastIndent (d + 2) (compactAt o d k v es).below = d + 2 := by
    cases es with
    | nil =>
      obtain ⟨s, rfl⟩ := exists_scalar (h.resolve_right (not_not.mpr rfl))
      rfl
    | cons e es =>
      refine leastIndent_eq (d + 2) (indent_compactAt o d k v (e :: es)) ?_
      obtain ⟨k', v'⟩ := e
      exact ⟨⟨d + 2, entryLine k' v', o⟩, by simp [compactAt, entriesAt, layoutEntries], rfl⟩
  have hopened : (compactAt o d k v es).opened = entriesAt o (layoutEntries (d + 2) ((k, v) :: es)) := by
    show (⟨leastIndent (d + 2) _, _, _⟩ : Entry) :: _ = _
    rw [hleast]
    rfl
  rw [readItem_compactAt hk hv, hopened]
  exact reads_layout o (d + 2) (.object ((k, v) :: es)) hobject rfl

/-- Otherwise the block below becomes the rest of the object, and the first entry has no value. -/
theorem tree_compactAt (hk : isKeyText k = true) (hv : v.isWritable = true) (h : v.isScalar = false) :
    ∃ rest, (readItem (compactAt o d k v [])).1.tree = .object ((k, .scalar "null") :: rest) := by
  obtain ⟨l, lines, hlines⟩ := layout_cons hv h (d := d + 2 + 2)
  have hl : l.1 = d + 2 + 2 := layout_head (d + 2 + 2) v l (by rw [hlines]; rfl)
  have hbelow : (compactAt o d k v []).below = ⟨d + 2 + 2, l.2, o⟩ :: entriesAt o lines := by
    simp [compactAt, hlines, layoutEntries, entriesAt, hl]
  have hleast : leastIndent (d + 2) (compactAt o d k v []).below = d + 2 + 2 := by
    refine leastIndent_eq (d + 2) ?_ (by rw [hbelow]; exact ⟨_, List.mem_cons_self, rfl⟩)
    refine List.forall_mem_map.mpr (List.forall_mem_append.mpr ⟨le_indent_layout (d + 2 + 2) v, ?_⟩)
    simp [layoutEntries]
  -- the first entry is moved to the column of the block, which so is no deeper than it
  have hopened : (compactAt o d k v []).opened =
      ⟨d + 2 + 2, entryLine k v, o⟩ :: ⟨d + 2 + 2, l.2, o⟩ :: entriesAt o lines := by
    show (⟨leastIndent (d + 2) _, _, _⟩ : Entry) :: _ = _
    rw [hleast, hbelow]
    rfl
  obtain ⟨hhead, hpair, hkey, hvalue⟩ := entry_parts (e := ⟨d + 2 + 2, entryLine k v, o⟩) hk hv rfl
  have hnil : Entry.value ⟨d + 2 + 2, entryLine k v, o⟩ = [] := hvalue.trans ((inline_eq_nil_iff hv).mpr h)
  have hnothing : Entry.below ⟨d + 2 + 2, entryLine k v, o⟩ (⟨d + 2 + 2, l.2, o⟩ :: entriesAt o lines) = [] :=
    List.takeWhile_cons_of_neg (by simp)
  rw [readItem_compactAt hk hv, hopened, readEntries_object _ hhead, readPairs_nest _ hpair hnil, hnothing,
    readEntries_nil, hkey]
  exact ⟨_, rfl⟩

/-- The items of a list in which one object has its first line behind the dash. -/
theorem group_compactItem (d : Int) (es : List (Text × Literal)) {before after : List Literal}
    (hbefore : areWritable before = true) (hafter : areWritable after = true) (hk : isKeyText k = true)
    (hv : v.isWritable = true) (o : BodyLine) :
    group d (entriesAt o (layoutItems d before ++ compactItem d k v es ++ layoutItems d after)) =
      { pending := [], items := before.map (itemAt o d) ++ compactAt o d k v es :: after.map (itemAt o d)
        reports := [] } := by
  have hgroup := group_layoutItems_self d hafter o
  have hlines : entriesAt o (compactItem d k v es) ++ entriesAt o (layoutItems d after) =
      ⟨d, dashed (entryLine k v), o⟩ :: ((compactAt o d k v es).below ++ entriesAt o (layoutItems d after)) := rfl
  have hdeeper : ∀ e ∈ (compactAt o d k v es).below, d < e.indent := by
    intro e he
    have := indent_compactAt o d k v es e he
    omega
  have hitem := group_item (Int.le_refl d) hdeeper (by rw [hgroup]) (' ' :: entryLine k v) o
  rw [(isCode_entryLine hk hv).trim_blank_cons, hgroup] at hitem
  rw [List.append_assoc, entriesAt_append, entriesAt_append, hlines, dashed, group_layoutItems hbefore (by rw [hitem]),
    hitem]
  rfl

theorem compactItem_head (d : Int) (k : Text) (v : Literal) (es : List (Text × Literal)) {before : List Literal}
    (hbefore : areWritable before = true) (after : List Literal) :
    ∃ r lines, layoutItems d before ++ compactItem d k v es ++ layoutItems d after = (d, '-' :: r) :: lines := by
  cases before with
  | nil => exact ⟨_, _, rfl⟩
  | cons v vs =>
    obtain ⟨r, hline, -⟩ := itemLine_eq (areWritable_cons.mp hbefore).1
    rw [layoutItems, hline]
    exact ⟨r, _, rfl⟩

theorem isCode_compactItem (hobject : isWritable (.object ((k, v) :: es)) = true) :
    ∀ l ∈ compactItem d k v es, IsCode l.2 := by
  obtain ⟨⟨hk, hv⟩, hes⟩ := isWritable_object_cons.mp hobject
  have hlines := isCode_layoutEntries (d + 2) ((k, v) :: es) (haveWritable_cons.mpr ⟨⟨hk, hv⟩, hes⟩)
  refine List.forall_mem_cons.mpr ⟨isCode_dashed (isCode_entryLine hk hv), fun l hl => ?_⟩
  exact hlines l (List.mem_of_mem_tail hl)

/-- A list in which one object has its first line behind the dash: all other items are read as themselves. -/
theorem readEntries_compactItem (d : Int) (es : List (Text × Literal)) {before after : List Literal}
    (hbefore : areWritable before = true) (hafter : areWritable after = true) (hk : isKeyText k = true)
    (hv : v.isWritable = true) (o : BodyLine) :
    let reading := readEntries (entriesAt o (layoutItems d before ++ compactItem d k v es ++ layoutItems d after))
    reading.1.tree = .list (before ++ (readItem (compactAt o d k v es)).1.tree :: after) ∧
      reading.2 = (readItem (compactAt o d k v es)).2 := by
  have hgroup := group_compactItem d es hbefore hafter hk hv o
  obtain ⟨r, lines, hlines⟩ := compactItem_head d k v es hbefore after
  rw [hlines, entriesAt, List.map_cons] at hgroup
  obtain ⟨htree, hreports⟩ := readEntries_of_group rfl hgroup
  have hothers : ∀ vs : List Literal, areWritable vs = true →
      (vs.map (itemAt o d)).map (fun i => (readItem i).1.tree) = vs ∧
        (vs.map (itemAt o d)).flatMap (fun i => (readItem i).2) = [] :=
    fun vs hvs => readItems_itemAt (reads_items o d vs hvs)
  obtain ⟨hbeforeTree, hbeforeReports⟩ := hothers before hbefore
  obtain ⟨hafterTree, hafterReports⟩ := hothers after hafter
  rw [List.map_append, List.map_cons, hbeforeTree, hafterTree] at htree
  rw [List.flatMap_append, List.flatMap_cons, hbeforeReports, hafterReports, List.nil_append,
    List.append_nil] at hreports
  simp only [hlines, entriesAt, List.map_cons]
  exact ⟨htree, hreports⟩

/-- **The two notations for an object in a list.**  With the dash on a line of its own, the list is read as itself.
With the first line of the object behind the dash it is read as itself, and no line is left out, when the value of the
first entry stands on that line or another entry follows; it is not read as itself otherwise. -/
theorem dash_notations (d : Int) (before after : List Literal) (k : Text) (v : Literal) (es : List (Text × Literal))
    (hitems : areWritable (before ++ .object ((k, v) :: es) :: after) = true) (block compact : List BodyLine)
    (hblock : Written block (layoutItems d (before ++ .object ((k, v) :: es) :: after)))
    (hcompact : Written compact (layoutItems d before ++ compactItem d k v es ++ layoutItems d after)) :
    (readBlock block).1.tree = .list (before ++ .object ((k, v) :: es) :: after) ∧ (readBlock block).2 = [] ∧
      ((readBlock compact).1.tree = (readBlock block).1.tree ↔ v.isScalar = true ∨ es ≠ []) ∧
      (v.isScalar = true ∨ es ≠ [] → (readBlock compact).2 = []) := by
  obtain ⟨hbefore, hrest⟩ := areWritable_append.mp hitems
  obtain ⟨hobject, hafter⟩ := areWritable_cons.mp hrest
  obtain ⟨⟨hk, hv⟩, -⟩ := isWritable_object_cons.mp hobject
  obtain ⟨htree, hreports⟩ := reads_of_written hblock (isCode_layoutItems d _ hitems)
    fun o => reads_list hitems (by simp) (reads_items o d _ hitems)
  have hcode : ∀ l ∈ layoutItems d before ++ compactItem d k v es ++ layoutItems d after, IsCode l.2 :=
    List.forall_mem_append.mpr ⟨List.forall_mem_append.mpr ⟨isCode_layoutItems d before hbefore,
      isCode_compactItem hobject⟩, isCode_layoutItems d after hafter⟩
  obtain ⟨hsame, hnone⟩ := readBlock_of_written hcompact hcode ⟨0, 0, []⟩
  obtain ⟨hlist, hitem⟩ := readEntries_compactItem d es hbefore hafter hk hv ⟨0, 0, []⟩
  rw [hlist] at hsame
  rw [hitem] at hnone
  refine ⟨htree, hreports, ⟨fun heq => ?_, fun h => ?_⟩, fun h => hnone.mpr (reads_compactAt hobject h).2⟩
  · -- an object whose only entry holds a block has lost it
    by_contra hno
    obtain ⟨hnested, rfl⟩ : v.isScalar = false ∧ es = [] := by simpa using hno
    obtain ⟨rest, hlost⟩ := tree_compactAt (o := ⟨0, 0, []⟩) (d := d) hk hv hnested
    rw [hsame, htree, hlost] at heq
    obtain ⟨hobjects, -⟩ := List.cons.inj (List.append_cancel_left (Literal.list.inj heq))
    obtain ⟨hentry, -⟩ := List.cons.inj (Literal.object.inj hobjects)
    obtain rfl : .scalar "null" = v := (Prod.mk.inj hentry).2
    cases hnested
  · rw [hsame, htree, (reads_compactAt hobject h).1]

/-- A list of a word and an object, in both notations. -/
theorem dash_notations_langs :
    let block : List BodyLine := [⟨1, 4, "    - x"⟩, ⟨2, 4, "    -"⟩, ⟨3, 6, "      name: Ada"⟩, ⟨4, 6, "      langs:"⟩,
      ⟨5, 8, "        - en"⟩]
    let compact : List BodyLine := [⟨1, 4, "    - x"⟩, ⟨2, 4, "    - name: Ada"⟩, ⟨3, 6, "      langs:"⟩,
      ⟨4, 8, "        - en"⟩]
    (readBlock compact).1.tree = (readBlock block).1.tree ∧ (readBlock compact).2 = [] := by
  intro block compact
  obtain ⟨-, -, htree, hreports⟩ := dash_notations 4 [.scalar "x"] [] "name" (.scalar "Ada")
    [("langs", .list [.scalar "en"])] (by decide) block compact (by unfold Written; decide) (by unfold Written; decide)
  exact ⟨htree.mpr (.inl rfl), hreports (.inl rfl)⟩

/-- The notations do not always agree: the entry that is nested below the line behind the dash becomes its neighbour. -/
theorem dash_before_nested_entry :
    let block : List BodyLine := [⟨1, 0, "-"⟩, ⟨2, 2, "  a:"⟩, ⟨3, 4, "    b: 1"⟩]
    let compact : List BodyLine := [⟨1, 0, "- a:"⟩, ⟨2, 4, "    b: 1"⟩]
    (readBlock compact).1.tree ≠ (readBlock block).1.tree ∧ (readBlock compact).2 = [] ∧
      (readBlock compact).1.tree.render = "[\x7b a: null, b: 1 \x7d]" := by
  refine ⟨fun h => ?_, by decide +kernel, by decide +kernel⟩
  exact absurd (congrArg render h) (by decide +kernel)

end Trellis.Literal
