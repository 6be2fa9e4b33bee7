import Trellis.Proofs.BlockLines

/-!
# How deep a literal block is entered

A pair behind a dash makes a block of its own that has as many lines as its item, so the number of lines does not bound
how often the block reader is entered again.  The text does:  a dash is taken off each time.  `readWithin` reads a block
to a limited depth, line after line, and says why where it cannot go on.  A depth above the weight of the block, which
counts its lines and their characters, is always enough, and what is read is what `readEntries` gives
(`readBlock_finishes`).
-/

namespace Trellis.Literal

/-- Why a reading is given up. -/
inductive Halt where
  /-- Blocks are nested deeper than allowed. -/
  | tooDeep
  /-- A line is to be put below an item, and there is no item yet. -/
  | noItem
  deriving DecidableEq, Repr

/-! ### Grouping line by line -/

/-- The items of a list so far, the last one first, and the lines left out so far. -/
structure Groups where
  items : List Item := []
  reports : List BlockReport := []

/-- Adds the next line of a list whose items stand at `base`. -/
def Groups.add (base : Int) (g : Groups) (e : Entry) : Except Halt Groups :=
  if base < e.indent then
    match g.items with
    | [] => .error .noItem
    | i :: is => .ok { g with items := { i with below := i.below ++ [e] } :: is }
  else match e.text with
    | '-' :: t => .ok { g with items := ⟨e.indent, Text.trim t, e.origin, []⟩ :: g.items }
    | _ => .ok { g with reports := g.reports ++ [⟨.notAnItem, e.origin⟩] }

variable {base : Int} {e : Entry} {t : Text}

theorem group_deeper (es : List Entry) (h : base < e.indent) :
    group base (e :: es) = { group base es with pending := e :: (group base es).pending } := by
  rw [group]
  exact if_pos h

theorem group_dash (es : List Entry) (h : ¬ base < e.indent) (ht : e.text = '-' :: t) :
    group base (e :: es) = { group base es with
      pending := [], items := ⟨e.indent, Text.trim t, e.origin, (group base es).pending⟩ :: (group base es).items } := by
  simp only [group, if_neg h, ht]

theorem group_other (es : List Entry) (h : ¬ base < e.indent) (ht : e.text.head? ≠ some '-') :
    group base (e :: es) =
      { group base es with reports := ⟨.notAnItem, e.origin⟩ :: (group base es).reports } := by
  simp only [group, if_neg h]
  split
  · next hdash => simp [hdash] at ht
  · rfl

theorem Groups.add_dash (g : Groups) (h : ¬ base < e.indent) (ht : e.text = '-' :: t) :
    g.add base e = .ok { g with items := ⟨e.indent, Text.trim t, e.origin, []⟩ :: g.items } := by
  simp only [add, if_neg h, ht]

theorem Groups.add_other (g : Groups) (h : ¬ base < e.indent) (ht : e.text.head? ≠ some '-') :
    g.add base e = .ok { g with reports := g.reports ++ [⟨.notAnItem, e.origin⟩] } := by
  simp only [add, if_neg h]
  split
  · next hdash => simp [hdash] at ht
  · rfl

/-- With an item to put them below, all lines of a list can be added: those that are pending join the item. -/
theorem foldlM_add_cons (base : Int) (es : List Entry) (i : Item) (is : List Item) (reports : List BlockReport) :
    es.foldlM (Groups.add base) ⟨i :: is, reports⟩ =
      .ok ⟨(group base es).items.reverse ++ { i with below := i.below ++ (group base es).pending } :: is,
        reports ++ (group base es).reports⟩ := by
  induction es generalizing i is reports with
  | nil => simp [group, pure, Except.pure]
  | cons e es ih =>
    rw [List.foldlM_cons]
    by_cases hdeeper : base < e.indent
    · -- a deeper line goes below the item that was added last
      have hadd : Groups.add base ⟨i :: is, reports⟩ e = .ok ⟨{ i with below := i.below ++ [e] } :: is, reports⟩ :=
        if_pos hdeeper
      rw [hadd, group_deeper es hdeeper]
      refine (ih _ _ _).trans ?_
      rw [List.append_assoc, List.singleton_append]
    · by_cases hdash : e.text.head? = some '-'
      · -- a dash opens the next item, with nothing below it yet
        obtain ⟨t, ht⟩ := List.head?_eq_some_iff.mp hdash
        rw [Groups.add_dash _ hdeeper ht, group_dash es hdeeper ht]
        refine (ih _ _ _).trans ?_
        rw [List.nil_append, List.append_nil, List.reverse_cons, List.append_assoc, List.singleton_append]
      · -- any other line is only reported
        rw [Groups.add_other _ hdeeper hdash, group_other es hdeeper hdash]
        refine (ih _ _ _).trans ?_
        rw [List.append_assoc, List.singleton_append]

/-- **Lines can be grouped unless some of them are pending before the first item.** -/
theorem foldlM_add_nil (base : Int) (es : List Entry) (reports : List BlockReport) :
    es.foldlM (Groups.add base) ⟨[], reports⟩ =
      if (group base es).pending.isEmpty then
        .ok ⟨(group base es).items.reverse, reports ++ (group base es).reports⟩
      else .error .noItem := by
  induction es generalizing reports with
  | nil => simp [group, pure, Except.pure]
  | cons e es ih =>
    rw [List.foldlM_cons]
    by_cases hdeeper : base < e.indent
    · -- a deeper line has no item to go below
      have hadd : Groups.add base ⟨[], reports⟩ e = .error .noItem := if_pos hdeeper
      rw [hadd, group_deeper es hdeeper]
      rfl
    · by_cases hdash : e.text.head? = some '-'
      · -- from the first item on nothing can fail
        obtain ⟨t, ht⟩ := List.head?_eq_some_iff.mp hdash
        rw [Groups.add_dash _ hdeeper ht, group_dash es hdeeper ht]
        refine (foldlM_add_cons base es _ [] reports).trans ?_
        rw [List.reverse_cons]
        rfl
      · rw [Groups.add_other _ hdeeper hdash, group_other es hdeeper hdash]
        refine (ih _).trans ?_
        rw [List.append_assoc, List.singleton_append]

/-! ### Reading to a depth -/

/-- A literal and the lines left out. -/
abbrev Reading := Sourced × List BlockReport

/-- Reads one item, where blocks inside it are read by `enter`. -/
def itemBy (enter : List Entry → Except Halt Reading) (i : Item) : Except Halt Reading :=
  if i.content.isEmpty then enter i.below
  else if (findUnquoted ':' i.content).isNone then
    .ok (.scalar i.content, i.below.map fun e => ⟨.afterScalar, e.origin⟩)
  else enter i.opened

def itemsBy (enter : List Entry → Except Halt Reading) :
    List Item → Except Halt (List (BodyLine × Sourced) × List BlockReport)
  | [] => .ok ([], [])
  | i :: is => do
    let first ← itemBy enter i
    let rest ← itemsBy enter is
    return ((i.origin, first.1) :: rest.1, first.2 ++ rest.2)

def pairsBy (enter : List Entry → Except Halt Reading) :
    List Entry → Except Halt (List (BodyLine × Text × Sourced) × List BlockReport)
  | [] => .ok ([], [])
  | e :: es =>
    if e.isPair then
      if e.value = [] then do
        let nested ← enter (e.below es)
        let rest ← pairsBy enter (e.beyond es)
        return ((e.origin, Value.unquote e.key, nested.1) :: rest.1, nested.2 ++ rest.2)
      else do
        let rest ← pairsBy enter (e.beyond es)
        return ((e.origin, Value.unquote e.key, .scalar e.value) :: rest.1,
          (e.below es).map (fun x => ⟨.underKey e.key, x.origin⟩) ++ rest.2)
    else do
      let rest ← pairsBy enter (e.beyond es)
      return (rest.1, ⟨.notAPair, e.origin⟩ :: rest.2)
termination_by es => es.length
decreasing_by all_goals exact Nat.lt_succ_of_le (List.dropWhile_sublist _).length_le

/-- Reads a block of which others are nested in one another at most `depth` deep, this one included. -/
def readWithin (depth : Nat) (es : List Entry) : Except Halt Reading :=
  match depth, es with
  | 0, _ => .error .tooDeep
  | _ + 1, [] => .ok (.scalar "null", [])
  | depth + 1, e :: es =>
    if e.text.head? = some '-' then do
      let g ← (e :: es).foldlM (Groups.add e.indent) {}
      let items ← itemsBy (readWithin depth) g.items.reverse
      return (.list items.1, g.reports ++ items.2)
    else do
      let entries ← pairsBy (readWithin depth) (e :: es)
      return (.object entries.1, entries.2)

/-! ### What a reading to a depth gives -/

/-- The outcome is `a`, or the reading went too deep; that it did is possible only under `P`. -/
def Gives {α : Type} (P : Prop) (x : Except Halt α) (a : α) : Prop := x = .ok a ∨ x = .error .tooDeep ∧ P

section Gives

variable {α β : Type} {P Q : Prop} {x : Except Halt α} {a : α}

theorem Gives.imp (h : Gives P x a) (hPQ : P → Q) : Gives Q x a := Or.imp_right (And.imp_right hPQ) h

theorem Gives.bind {f : α → Except Halt β} {b : β} (h : Gives P x a) (hf : Gives P (f a) b) :
    Gives P (x >>= f) b := by
  obtain rfl | ⟨rfl, hP⟩ := h
  · exact hf
  · exact .inr ⟨rfl, hP⟩

end Gives

section Step

variable {enter : List Entry → Except Halt Reading} {d : Nat}

theorem gives_itemBy (h : ∀ es, Gives (d ≤ weight es) (enter es) (readEntries es)) (i : Item) :
    Gives (d < i.content.length + 2 + weight i.below) (itemBy enter i) (readItem i) := by
  unfold itemBy readItem
  split
  · exact (h i.below).imp fun hle => by omega
  · split
    · exact .inl rfl
    · have hopened : weight i.opened = i.content.length + 1 + weight i.below := rfl
      exact (h i.opened).imp fun hle => by omega

theorem gives_itemsBy (h : ∀ es, Gives (d ≤ weight es) (enter es) (readEntries es)) (items : List Item) :
    Gives (d < itemsWeight items) (itemsBy enter items) (readItems items) := by
  induction items with
  | nil =>
    rw [readItems_nil]
    exact .inl rfl
  | cons i is ih =>
    rw [readItems_cons, itemsBy]
    have hweight : itemsWeight (i :: is) = i.content.length + 2 + weight i.below + itemsWeight is := rfl
    refine ((gives_itemBy h i).imp fun hlt => by omega).bind ?_
    exact (ih.imp fun hlt => by omega).bind (.inl rfl)

theorem gives_pairsBy (h : ∀ es, Gives (d ≤ weight es) (enter es) (readEntries es)) (es : List Entry) :
    Gives (d < weight es) (pairsBy enter es) (readPairs es) := by
  induction es using pairsBy.induct with
  | case1 =>
    rw [readPairs_nil, pairsBy]
    exact .inl rfl
  | case2 e es hpair hvalue ih =>
    have hbelow : weight (e.below es) ≤ weight es := weight_takeWhile_le _ es
    have hbeyond : weight (e.beyond es) ≤ weight es := weight_dropWhile_le _ es
    rw [readPairs_nest es hpair hvalue, pairsBy, if_pos hpair, if_pos hvalue]
    refine ((h (e.below es)).imp fun hle => by rw [weight]; omega).bind ?_
    exact (ih.imp fun hlt => by rw [weight]; omega).bind (.inl rfl)
  | case3 e es hpair hvalue ih =>
    have hbeyond : weight (e.beyond es) ≤ weight es := weight_dropWhile_le _ es
    rw [readPairs_scalar es hpair hvalue, pairsBy, if_pos hpair, if_neg hvalue]
    exact (ih.imp fun hlt => by rw [weight]; omega).bind (.inl rfl)
  | case4 e es hpair ih =>
    have hbeyond : weight (e.beyond es) ≤ weight es := weight_dropWhile_le _ es
    rw [readPairs_drop es (by simpa using hpair), pairsBy, if_neg hpair]
    exact (ih.imp fun hlt => by rw [weight]; omega).bind (.inl rfl)

end Step

/-- A reading to a depth gives what the block reader gives, unless the depth is within the weight of the block. -/
theorem gives_readWithin (d : Nat) (es : List Entry) : Gives (d ≤ weight es) (readWithin d es) (readEntries es) := by
  induction d generalizing es with
  | zero => exact .inr ⟨rfl, Nat.zero_le _⟩
  | succ d ih =>
    cases es with
    | nil =>
      rw [readEntries_nil]
      exact .inl rfl
    | cons e es =>
      by_cases hdash : e.text.head? = some '-'
      · -- the first line has a dash and stands at the base, so no line is pending before it
        have hgroups : (e :: es).foldlM (Groups.add e.indent) {} =
            .ok ⟨(group e.indent (e :: es)).items.reverse, (group e.indent (e :: es)).reports⟩ := by
          rw [foldlM_add_nil, (group_head es hdash).1]
          rfl
        have hweight := group_weight e.indent (e :: es)
        have hitems : Gives (d + 1 ≤ weight (e :: es))
            (itemsBy (readWithin d) (group e.indent (e :: es)).items.reverse.reverse)
            (readItems (group e.indent (e :: es)).items) := by
          rw [List.reverse_reverse]
          exact (gives_itemsBy ih _).imp fun hlt => by omega
        rw [readEntries_list es hdash, readWithin, if_pos hdash, hgroups]
        exact Gives.bind (.inl rfl) (hitems.bind (.inl rfl))
      · rw [readEntries_object es hdash, readWithin, if_neg hdash]
        exact (gives_pairsBy ih (e :: es)).bind (.inl rfl)

/-! ### Blocks -/

theorem count_reported_le (lines : List BodyLine) (l : BodyLine) :
    (reported (readBlock lines).2).count l ≤ lines.count l := by
  have hgaps : Thinned (Gap (readBlock lines).2) (origins (blockEntries lines)) lines := by
    rw [origins_blockEntries_eq]
    exact .of_filter _ (fun _ hy => .inl hy) lines
  obtain ⟨kept, lost, haccount⟩ :=
    read_balanced.1 _ (placed_of_exact (blockEntries_exact lines)) _ lines (List.Subset.refl _) hgaps
  calc (reported (readBlock lines).2).count l
      ≤ (kept ++ reported (readBlock lines).2 ++ lost).count l := by
        rw [List.count_append, List.count_append]
        omega
    _ = (origins (blockEntries lines)).count l := (haccount.perm.count_eq l).symm
    _ = (lines.filter BodyLine.isContent).count l := by rw [origins_blockEntries_eq]
    _ ≤ lines.count l := List.filter_sublist.count_le l

/-- **Reading a block comes to an end**, however its lines are indented and whatever they say.  At any depth, no line is
to be put below an item that is not there.  A depth above the weight of the block is never used up, and the reading gives
what the block reader gives.  No line is reported more often than it stands in the block. -/
theorem readBlock_finishes (lines : List BodyLine) :
    (∀ d, readWithin d (blockEntries lines) ≠ .error .noItem) ∧
      (∀ d, readWithin (weight (blockEntries lines) + 1 + d) (blockEntries lines) = .ok (readBlock lines)) ∧
      ∀ l, (reported (readBlock lines).2).count l ≤ lines.count l := by
  refine ⟨fun d h => ?_, fun d => ?_, fun l => ?_⟩
  · obtain hok | ⟨hdeep, -⟩ := gives_readWithin d (blockEntries lines)
    · cases hok.symm.trans h
    · cases hdeep.symm.trans h
  · obtain hok | ⟨-, hle⟩ := gives_readWithin (weight (blockEntries lines) + 1 + d) (blockEntries lines)
    · exact hok
    · omega
  · exact count_reported_le lines l

end Trellis.Literal
