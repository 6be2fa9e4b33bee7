import Mathlib.Data.List.TakeWhile
import Trellis.Proofs.ReportOrder
import Trellis.Proofs.TrailingComment

/-!
# What becomes of the lines of a block

Every line of a literal block that is no comment is kept, as the origin of an item or an entry, or reported once, or
lost (`readBlock_accounts`).  A line is lost in one way only:  it stands below a line that is reported because it is no
pair, and the reader passes over both.  That this happens is shown by `line_below_no_pair_lost`.
-/

namespace Trellis

/-- The line takes part in a block: it is neither blank nor a comment. -/
def BodyLine.isContent (l : BodyLine) : Bool := !l.text.isEmpty && !l.isComment

/-- The first character of a line that is no comment is code. -/
theorem BodyLine.code_isEmpty {l : BodyLine} (h : l.isComment = false) : l.code.isEmpty = l.text.isEmpty := by
  have hblank : ∀ c ∈ l.text.head?, Text.isBlank c = false := Text.head?_trim
  unfold isComment at h
  rw [code, stripComment_eq]
  cases htext : l.text with
  | nil => rfl
  | cons c t =>
    rw [htext] at h hblank
    have hc : ¬ (c = '#' ∧ (none : Option Char) = none) := by simpa using h
    have hhead : (Text.trim (c :: codeFrom (quoteAfter none c) t)).head? = some c := by
      rw [Text.head?_trim_eq, Text.trimStart_eq_self (by simpa using hblank)]
      rfl
    obtain ⟨r, hr⟩ := List.head?_eq_some_iff.mp hhead
    rw [codeFrom, if_neg hc, hr]
    rfl

namespace Literal

/-! ### The lines of a literal -/

mutual

/-- The lines that the items and entries of a literal came from. -/
def Sourced.lines : Sourced → List BodyLine
  | .scalar _ => []
  | .list items => Sourced.itemLines items
  | .object entries => Sourced.entryLines entries

def Sourced.itemLines : List (BodyLine × Sourced) → List BodyLine
  | [] => []
  | (l, s) :: r => l :: (s.lines ++ Sourced.itemLines r)

def Sourced.entryLines : List (BodyLine × Text × Sourced) → List BodyLine
  | [] => []
  | (l, _, s) :: r => l :: (s.lines ++ Sourced.entryLines r)

end

def reported (reports : List BlockReport) : List BodyLine := reports.map (·.origin)

/-! ### Accounts -/

/-- An account of some lines: each is kept, reported or lost.  What is kept is used, and what is used is kept or
reported. -/
structure Account (Lost : BodyLine → Prop) (lines used : List BodyLine) (reports : List BlockReport)
    (kept lost : List BodyLine) : Prop where
  perm : lines.Perm (kept ++ reported reports ++ lost)
  kept_used : ∀ l ∈ kept, l ∈ used
  used_known : ∀ l ∈ used, l ∈ kept ∨ l ∈ reported reports
  lost_only : ∀ l ∈ lost, Lost l

/-- There is an account of the lines. -/
def Accounted (Lost : BodyLine → Prop) (lines used : List BodyLine) (reports : List BlockReport) : Prop :=
  ∃ kept lost, Account Lost lines used reports kept lost

variable {Lost Lost' : BodyLine → Prop} {l : BodyLine} {lines lines' used used' : List BodyLine}
  {reports reports' : List BlockReport}

theorem accounted_kept (Lost : BodyLine → Prop) (l : BodyLine) : Accounted Lost [l] [l] [] :=
  ⟨[l], [], by simp [reported], by simp, by simp, by simp⟩

theorem accounted_reported (Lost : BodyLine → Prop) (reports : List BlockReport) :
    Accounted Lost (reported reports) [] reports :=
  ⟨[], [], by simp, by simp, by simp, by simp⟩

theorem accounted_lost (h : ∀ l ∈ lines, Lost l) : Accounted Lost lines [] [] :=
  ⟨[], lines, by simp [reported], by simp, by simp, h⟩

namespace Accounted

theorem append (h : Accounted Lost lines used reports) (h' : Accounted Lost lines' used' reports') :
    Accounted Lost (lines ++ lines') (used ++ used') (reports ++ reports') := by
  obtain ⟨kept, lost, hperm, hkept, hused, hlost⟩ := h
  obtain ⟨kept', lost', hperm', hkept', hused', hlost'⟩ := h'
  have hreported : reported (reports ++ reports') = reported reports ++ reported reports' := List.map_append
  refine ⟨kept ++ kept', lost ++ lost', ?_, ?_, ?_, List.forall_mem_append.mpr ⟨hlost, hlost'⟩⟩
  · rw [hreported]
    refine (hperm.append hperm').trans (List.perm_iff_count.mpr fun x => ?_)
    simp only [List.count_append]
    omega
  · exact List.forall_mem_append.mpr
      ⟨fun l hl => List.mem_append_left _ (hkept l hl), fun l hl => List.mem_append_right _ (hkept' l hl)⟩
  · rw [hreported]
    refine List.forall_mem_append.mpr ⟨fun l hl => ?_, fun l hl => ?_⟩
    · exact (hused l hl).imp (List.mem_append_left _) (List.mem_append_left _)
    · exact (hused' l hl).imp (List.mem_append_right _) (List.mem_append_right _)

theorem of_perm (h : Accounted Lost lines used reports) (hperm : lines'.Perm lines) :
    Accounted Lost lines' used reports := by
  obtain ⟨kept, lost, hlines, hkept, hused, hlost⟩ := h
  exact ⟨kept, lost, hperm.trans hlines, hkept, hused, hlost⟩

theorem mono (h : Accounted Lost lines used reports) (hmono : ∀ l, Lost l → Lost' l) :
    Accounted Lost' lines used reports := by
  obtain ⟨kept, lost, hlines, hkept, hused, hlost⟩ := h
  exact ⟨kept, lost, hlines, hkept, hused, fun l hl => hmono l (hlost l hl)⟩

/-- A line that is known may be used once more. -/
theorem again (h : Accounted Lost lines used reports) (hl : l ∈ used ∨ l ∈ reported reports) :
    Accounted Lost lines (l :: used) reports := by
  obtain ⟨kept, lost, hlines, hkept, hused, hlost⟩ := h
  refine ⟨kept, lost, hlines, fun x hx => List.mem_cons_of_mem l (hkept x hx), ?_, hlost⟩
  exact List.forall_mem_cons.mpr ⟨hl.elim (hused l) Or.inr, hused⟩

end Accounted

/-! ### Lines that are passed over -/

/-- Some lines, of which others with the property `P` have been left out. -/
inductive Thinned (P : BodyLine → Prop) : List BodyLine → List BodyLine → Prop
  | nil : Thinned P [] []
  | keep (x : BodyLine) {xs ys : List BodyLine} (h : Thinned P xs ys) : Thinned P (x :: xs) (x :: ys)
  | skip {y : BodyLine} (hy : P y) {xs ys : List BodyLine} (h : Thinned P xs ys) : Thinned P xs (y :: ys)

namespace Thinned

variable {P : BodyLine → Prop} {x : BodyLine} {xs xs' ys zs : List BodyLine}

theorem trans (h : Thinned P xs ys) (h' : Thinned P ys zs) : Thinned P xs zs := by
  induction h' generalizing xs with
  | nil => exact h
  | keep x _ ih =>
    cases h with
    | keep _ h => exact .keep x (ih h)
    | skip hy h => exact .skip hy (ih h)
  | skip hy _ ih => exact .skip hy (ih h)

theorem of_filter (p : BodyLine → Bool) (hP : ∀ y, p y = false → P y) (ys : List BodyLine) :
    Thinned P (ys.filter p) ys := by
  induction ys with
  | nil => exact .nil
  | cons y ys ih =>
    cases hy : p y with
    | true =>
      rw [List.filter_cons_of_pos hy]
      exact .keep y ih
    | false =>
      rw [List.filter_cons_of_neg (by simp [hy])]
      exact .skip (hP y hy) ih

/-- Where a line stands, and what stands before it. -/
theorem split (h : Thinned P (xs ++ x :: xs') ys) :
    ∃ before after, ys = before ++ x :: after ∧ Thinned P xs before ∧ Thinned P xs' after := by
  generalize hzs : xs ++ x :: xs' = zs at h
  induction h generalizing xs with
  | nil => simp at hzs
  | @keep z zs ys h ih =>
    cases xs with
    | nil =>
      obtain ⟨rfl, rfl⟩ := List.cons.inj hzs
      exact ⟨[], ys, rfl, .nil, h⟩
    | cons w ws =>
      obtain ⟨rfl, hrest⟩ := List.cons.inj hzs
      obtain ⟨before, after, rfl, hbefore, hafter⟩ := ih hrest
      exact ⟨w :: before, after, rfl, .keep w hbefore, hafter⟩
  | @skip y hy zs ys h ih =>
    obtain ⟨before, after, rfl, hbefore, hafter⟩ := ih hzs
    exact ⟨y :: before, after, rfl, .skip hy hbefore, hafter⟩

theorem split_cons (h : Thinned P (x :: xs) ys) : ∃ before after, ys = before ++ x :: after ∧ Thinned P xs after := by
  have h : Thinned P ([] ++ x :: xs) ys := h
  obtain ⟨before, after, hys, -, hafter⟩ := h.split
  exact ⟨before, after, hys, hafter⟩

theorem split_append (h : Thinned P (xs ++ xs') ys) :
    ∃ before after, ys = before ++ after ∧ Thinned P xs before ∧ Thinned P xs' after := by
  cases xs' with
  | nil => exact ⟨ys, [], by simp, by simpa using h, .nil⟩
  | cons x xs' =>
    obtain ⟨before, after, rfl, hbefore, hafter⟩ := h.split
    exact ⟨before, x :: after, rfl, hbefore, .keep x hafter⟩

theorem mem (h : Thinned P xs ys) : ∀ y ∈ ys, y ∈ xs ∨ P y := by
  induction h with
  | nil => simp
  | keep x _ ih =>
    refine List.forall_mem_cons.mpr ⟨.inl List.mem_cons_self, fun y hy => ?_⟩
    exact (ih y hy).imp_left (List.mem_cons_of_mem x)
  | skip hy _ ih => exact List.forall_mem_cons.mpr ⟨.inr hy, ih⟩

end Thinned

/-- The line is between the lines of a block without being one of them: it is no content, or a line of a list that is no
item. -/
def Gap (reports : List BlockReport) (l : BodyLine) : Prop := l.isContent = false ∨ ⟨.notAnItem, l⟩ ∈ reports

/-- **The line is below one that is no pair**:  an earlier line is reported as no pair, and the line, and each line
between the two that is not passed over anyway, is deeper than it. -/
def Hidden (lines : List BodyLine) (reports : List BlockReport) (l : BodyLine) : Prop :=
  ∃ before m between after, lines = before ++ m :: (between ++ l :: after) ∧ ⟨.notAPair, m⟩ ∈ reports ∧
    m.indent < l.indent ∧ ∀ x ∈ between, m.indent < x.indent ∨ Gap reports x

theorem Hidden.within (h : Hidden lines reports l) (before after : List BodyLine) :
    Hidden (before ++ lines ++ after) reports l := by
  obtain ⟨before', m, between, after', rfl, hm, hdeeper, hbetween⟩ := h
  exact ⟨before ++ before', m, between, after' ++ after, by simp, hm, hdeeper, hbetween⟩

/-! ### Where the lines of a block stand -/

/-- The lines count as indented where they stand, but for the first, which may count as deeper: it is the text behind a
dash. -/
structure Placed (es : List Entry) : Prop where
  least : ∀ e ∈ es, e.origin.indent ≤ e.indent
  exact : ∀ e ∈ es.tail, e.indent = e.origin.indent

/-- The same for an item and the lines below it. -/
structure ItemPlaced (i : Item) : Prop where
  least : i.origin.indent ≤ i.indent
  deeper : ∀ e ∈ i.below, i.indent < e.indent
  exact : ∀ e ∈ i.below, e.indent = e.origin.indent

variable {e : Entry} {es : List Entry} {i : Item} {base : Int}

theorem placed_of_exact (h : ∀ e ∈ es, e.indent = e.origin.indent) : Placed es :=
  ⟨fun e he => Int.le_of_eq (h e he).symm, fun e he => h e (List.mem_of_mem_tail he)⟩

theorem exact_below (h : Placed (e :: es)) : ∀ x ∈ e.below es, x.indent = x.origin.indent :=
  fun x hx => h.exact x (List.takeWhile_sublist _ |>.mem hx)

theorem exact_beyond (h : Placed (e :: es)) : ∀ x ∈ e.beyond es, x.indent = x.origin.indent :=
  fun x hx => h.exact x (List.dropWhile_sublist _ |>.mem hx)

theorem group_placed (base : Int) (es : List Entry)
    (h : ∀ e ∈ es, e.origin.indent ≤ e.indent ∧ (base < e.indent → e.indent = e.origin.indent)) :
    (∀ e ∈ (group base es).pending, base < e.indent ∧ e.indent = e.origin.indent) ∧
      ∀ i ∈ (group base es).items, ItemPlaced i := by
  induction es with
  | nil => simp [group]
  | cons e es ih =>
    obtain ⟨⟨hle, hexact⟩, hes⟩ := List.forall_mem_cons.mp h
    obtain ⟨hpending, hitems⟩ := ih hes
    simp only [group]
    by_cases hbase : base < e.indent
    · rw [if_pos hbase]
      exact ⟨List.forall_mem_cons.mpr ⟨⟨hbase, hexact hbase⟩, hpending⟩, hitems⟩
    · rw [if_neg hbase]
      split
      · refine ⟨by simp, List.forall_mem_cons.mpr ⟨⟨hle, fun x hx => ?_, fun x hx => (hpending x hx).2⟩, hitems⟩⟩
        have := (hpending x hx).1
        show e.indent < x.indent
        omega
      · exact ⟨hpending, hitems⟩

theorem le_foldl_min {n a : Int} (ha : n ≤ a) {es : List Entry} (hes : ∀ e ∈ es, n ≤ e.indent) :
    n ≤ es.foldl (fun m x => min m x.indent) a := by
  induction es generalizing a with
  | nil => exact ha
  | cons e es ih =>
    obtain ⟨he, hes⟩ := List.forall_mem_cons.mp hes
    exact ih (Int.le_min.mpr ⟨ha, he⟩) hes

/-- The text behind a dash counts as deeper than the dash. -/
theorem ItemPlaced.opened (h : ItemPlaced i) : Placed i.opened := by
  have hleast : i.indent ≤ leastIndent (i.indent + 2) i.below := by
    have hdeeper := h.deeper
    cases hbelow : i.below with
    | nil =>
      show i.indent ≤ i.indent + 2
      omega
    | cons e es =>
      rw [hbelow] at hdeeper
      obtain ⟨he, hes⟩ := List.forall_mem_cons.mp hdeeper
      exact le_foldl_min (Int.le_of_lt he) fun x hx => Int.le_of_lt (hes x hx)
  refine ⟨List.forall_mem_cons.mpr ⟨Int.le_trans h.least hleast, fun x hx => ?_⟩, h.exact⟩
  exact Int.le_of_eq (h.exact x hx).symm

/-! ### Accounts of a reading -/

/-- Grouping distributes the lines. -/
theorem group_perm (base : Int) (es : List Entry) :
    (origins es).Perm
      (origins (group base es).pending ++ itemOrigins (group base es).items ++ reported (group base es).reports) := by
  induction es with
  | nil => exact .nil
  | cons e es ih =>
    have hcons : (origins (e :: es)).Perm (e.origin :: (origins (group base es).pending ++
        itemOrigins (group base es).items ++ reported (group base es).reports)) := ih.cons e.origin
    simp only [group]
    by_cases hbase : base < e.indent
    · rw [if_pos hbase]
      exact hcons
    · rw [if_neg hbase]
      split
      · exact hcons
      · exact hcons.trans List.perm_middle.symm

/-- Grouping leaves out the lines that it reports. -/
theorem group_thinned {P : BodyLine → Prop} (base : Int) (es : List Entry)
    (hP : ∀ b ∈ (group base es).reports, P b.origin) :
    Thinned P (origins (group base es).pending ++ itemOrigins (group base es).items) (origins es) := by
  induction es with
  | nil => exact .nil
  | cons e es ih =>
    simp only [group] at hP ⊢
    by_cases hbase : base < e.indent
    · rw [if_pos hbase] at hP ⊢
      exact .keep e.origin (ih hP)
    · rw [if_neg hbase] at hP ⊢
      split at hP
      · exact .keep e.origin (ih hP)
      · obtain ⟨he, hes⟩ := List.forall_mem_cons.mp hP
        exact .skip he (ih hes)

/-- A list starts with an item of its first line, so no line comes before the items. -/
theorem group_head (es : List Entry) (h : e.text.head? = some '-') :
    (group e.indent (e :: es)).pending = [] ∧
      ∃ i is, (group e.indent (e :: es)).items = i :: is ∧ i.origin = e.origin := by
  obtain ⟨t, ht⟩ := List.head?_eq_some_iff.mp h
  have hirrefl : ¬ e.indent < e.indent := Int.lt_irrefl _
  simp only [group, if_neg hirrefl, ht]
  exact ⟨trivial, _, _, rfl, rfl⟩

/-- The first line of a block is used or reported. -/
theorem head_known (e : Entry) (es : List Entry) :
    e.origin ∈ (readEntries (e :: es)).1.lines ∨ e.origin ∈ reported (readEntries (e :: es)).2 := by
  by_cases hdash : e.text.head? = some '-'
  · obtain ⟨-, i, is, hitems, horigin⟩ := group_head es hdash
    rw [readEntries_list es hdash, hitems, readItems_cons, horigin]
    exact .inl List.mem_cons_self
  · rw [readEntries_object es hdash]
    cases hp : e.isPair with
    | false =>
      rw [readPairs_drop es hp]
      exact .inr List.mem_cons_self
    | true =>
      by_cases hv : e.value = []
      · rw [readPairs_nest es hp hv]
        exact .inl List.mem_cons_self
      · rw [readPairs_scalar es hp hv]
        exact .inl List.mem_cons_self

theorem origins_below_beyond (e : Entry) (es : List Entry) :
    origins (e :: es) = e.origin :: (origins (e.below es) ++ origins (e.beyond es)) := by
  have hsplit : e.below es ++ e.beyond es = es := List.takeWhile_append_dropWhile
  rw [origins, origins, origins, ← List.map_append, hsplit, List.map_cons]

theorem reported_map (fault : BlockFault) (es : List Entry) :
    reported (es.map fun x => ⟨fault, x.origin⟩) = origins es := by
  rw [reported, List.map_map]
  rfl

/-- There is an account of the lines wherever they stand, with lines in the gaps between them, and whatever else is
reported. -/
def Balanced (lines used : List BodyLine) (own : List BlockReport) : Prop :=
  ∀ reports ys, own ⊆ reports → Thinned (Gap reports) lines ys → Accounted (Hidden ys reports) lines used own

theorem balanced_kept (l : BodyLine) : Balanced [l] [l] [] := fun _ _ _ _ => accounted_kept _ l

theorem balanced_reported (fault : BlockFault) (es : List Entry) :
    Balanced (origins es) [] (es.map fun x => ⟨fault, x.origin⟩) := by
  intro reports ys _ _
  have h := accounted_reported (Hidden ys reports) (es.map fun x => ⟨fault, x.origin⟩)
  rwa [reported_map] at h

theorem Balanced.append {own own' : List BlockReport} (h : Balanced lines used own) (h' : Balanced lines' used' own') :
    Balanced (lines ++ lines') (used ++ used') (own ++ own') := by
  intro reports ys hown hys
  obtain ⟨hown, hown'⟩ := List.append_subset.mp hown
  obtain ⟨before, after, rfl, hbefore, hafter⟩ := hys.split_append
  have hfirst := (h reports before hown hbefore).mono fun l hl => hl.within [] after
  have hsecond := (h' reports after hown' hafter).mono fun l hl => hl.within before []
  rw [List.append_nil] at hsecond
  exact hfirst.append hsecond

/-- A line that is no pair is reported, and the lines below it are hidden. -/
theorem balanced_drop (h : Placed (e :: es)) :
    Balanced (e.origin :: origins (e.below es)) [] [⟨.notAPair, e.origin⟩] := by
  intro reports ys hown hys
  have hfirst : e.origin.indent ≤ e.indent := h.least e List.mem_cons_self
  have hdeeper : ∀ l ∈ origins (e.below es), e.origin.indent < l.indent := by
    refine List.forall_mem_map.mpr fun x hx => ?_
    have hlt : e.indent < x.indent := by simpa using List.mem_takeWhile_imp hx
    have hexact : x.indent = x.origin.indent := exact_below h x hx
    omega
  obtain ⟨before, rest, rfl, hrest⟩ := hys.split_cons
  have hhidden : ∀ l ∈ origins (e.below es), Hidden (before ++ e.origin :: rest) reports l := by
    intro l hl
    obtain ⟨xs, xs', hcut⟩ := List.append_of_mem hl
    rw [hcut] at hrest hdeeper
    obtain ⟨between, after, rfl, hbetween, -⟩ := hrest.split
    refine ⟨before, e.origin, between, after, rfl, hown List.mem_cons_self, hdeeper l (by simp), fun x hx => ?_⟩
    exact (hbetween.mem x hx).imp_left fun hx => hdeeper x (List.mem_append_left _ hx)
  exact (accounted_reported _ [⟨.notAPair, e.origin⟩]).append (accounted_lost hhidden)

/-- Accounts of the items of a list make one of the list. -/
theorem balanced_list (es : List Entry) (h : e.text.head? = some '-')
    (hitems : Balanced (itemOrigins (group e.indent (e :: es)).items) used reports) :
    Balanced (origins (e :: es)) used ((group e.indent (e :: es)).reports ++ reports) := by
  intro all ys hall hys
  obtain ⟨hgroup, hreports⟩ := List.append_subset.mp hall
  have hpending : origins (group e.indent (e :: es)).pending = [] := by
    rw [(group_head es h).1]
    rfl
  have hthinned := group_thinned (P := Gap all) e.indent (e :: es) fun b hb =>
    .inr ((group_sublist e.indent (e :: es)).2.2 b hb ▸ hgroup hb)
  have hperm := group_perm e.indent (e :: es)
  rw [hpending, List.nil_append] at hthinned hperm
  have haccount := hitems all ys hreports (hthinned.trans hys)
  exact ((accounted_reported _ _).append haccount).of_perm (hperm.trans List.perm_append_comm)

/-- Accounts of the lines below an item, and of these with the text behind the dash, make one of the item. -/
theorem balanced_item (h : ItemPlaced i)
    (hbelow : Placed i.below → Balanced (origins i.below) (readEntries i.below).1.lines (readEntries i.below).2)
    (hopened : Placed i.opened → Balanced (origins i.opened) (readEntries i.opened).1.lines (readEntries i.opened).2) :
    Balanced (i.origin :: origins i.below) (i.origin :: (readItem i).1.lines) (readItem i).2 := by
  unfold readItem
  split
  · exact (balanced_kept i.origin).append (hbelow (placed_of_exact h.exact))
  · split
    · exact (balanced_kept i.origin).append (balanced_reported .afterScalar i.below)
    · intro reports ys hown hys
      exact (hopened h.opened reports ys hown hys).again (head_known _ _)

/-- The lines of a block, of the pairs of an object and of the items of a list are accounted for. -/
theorem read_balanced :
    (∀ es, Placed es → Balanced (origins es) (readEntries es).1.lines (readEntries es).2) ∧
    (∀ es, Placed es → Balanced (origins es) (Sourced.entryLines (readPairs es).1) (readPairs es).2) ∧
    (∀ items, (∀ i ∈ items, ItemPlaced i) →
      Balanced (itemOrigins items) (Sourced.itemLines (readItems items).1) (readItems items).2) := by
  apply block_induction
  case nil =>
    intro _
    rw [readEntries_nil]
    exact balanced_reported .notAPair []
  case list =>
    intro e es hd ih h
    rw [readEntries_list es hd]
    -- the lines of a list are placed relative to its first dash
    have hexact : ∀ x ∈ e :: es, x.origin.indent ≤ x.indent ∧ (e.indent < x.indent → x.indent = x.origin.indent) := by
      refine List.forall_mem_cons.mpr ⟨⟨h.least e List.mem_cons_self, fun hlt => absurd hlt (Int.lt_irrefl _)⟩, ?_⟩
      exact fun x hx => ⟨h.least x (List.mem_cons_of_mem e hx), fun _ => h.exact x hx⟩
    exact balanced_list es hd (ih (group_placed e.indent (e :: es) hexact).2)
  case object =>
    intro e es hd ih h
    rw [readEntries_object es hd]
    exact ih h
  case noPairs =>
    intro _
    rw [readPairs_nil]
    exact balanced_reported .notAPair []
  case pair =>
    intro e es ihbelow ihbeyond h
    have hbeyond := ihbeyond (placed_of_exact (exact_beyond h))
    rw [origins_below_beyond]
    cases hp : e.isPair with
    | false =>
      -- a line that is no pair takes the lines below it along into its report
      rw [readPairs_drop es hp]
      exact (balanced_drop h).append hbeyond
    | true =>
      by_cases hv : e.value = []
      · -- the key is kept, and the lines below it are the value
        rw [readPairs_nest es hp hv]
        exact (balanced_kept e.origin).append ((ihbelow (placed_of_exact (exact_below h))).append hbeyond)
      · -- the key is kept, and each line below it is reported
        rw [readPairs_scalar es hp hv]
        exact (balanced_kept e.origin).append ((balanced_reported (.underKey e.key) (e.below es)).append hbeyond)
  case noItems =>
    intro _
    rw [readItems_nil]
    exact balanced_reported .notAPair []
  case item =>
    intro i is ihbelow ihopened ihrest h
    obtain ⟨hi, his⟩ := List.forall_mem_cons.mp h
    rw [readItems_cons]
    exact (balanced_item hi ihbelow ihopened).append (ihrest his)

/-! ### Blocks -/

theorem blockEntries_cons (l : BodyLine) (ls : List BodyLine) :
    blockEntries (l :: ls) = if l.isContent then ⟨l.indent, l.code, l⟩ :: blockEntries ls else blockEntries ls := by
  have htest : (l.isComment || l.code.isEmpty) = !l.isContent := by
    cases hcomment : l.isComment with
    | true => simp [BodyLine.isContent, hcomment]
    | false => simp [BodyLine.isContent, hcomment, BodyLine.code_isEmpty hcomment]
  unfold blockEntries
  rw [List.filterMap_cons, htest]
  cases l.isContent <;> rfl

theorem origins_blockEntries_eq (lines : List BodyLine) :
    origins (blockEntries lines) = lines.filter BodyLine.isContent := by
  induction lines with
  | nil => rfl
  | cons l ls ih =>
    rw [blockEntries_cons, List.filter_cons, ← ih]
    split <;> rfl

theorem blockEntries_exact (lines : List BodyLine) : ∀ e ∈ blockEntries lines, e.indent = e.origin.indent := by
  induction lines with
  | nil => simp [blockEntries]
  | cons l ls ih =>
    rw [blockEntries_cons]
    split
    · exact List.forall_mem_cons.mpr ⟨rfl, ih⟩
    · exact ih

/-- **What becomes of the lines of a block**:  of the lines that are neither blank nor comments, each is the origin of
an item or an entry, or reported once, or hidden below a line that is reported as no pair.  Every report is an
`E0204`. -/
theorem readBlock_accounts (lines : List BodyLine) :
    Accounted (Hidden lines (readBlock lines).2) (lines.filter BodyLine.isContent) (readBlock lines).1.lines
        (readBlock lines).2 ∧
      ∀ fault, (Problem.block fault).code = "E0204" := by
  have hplaced := placed_of_exact (blockEntries_exact lines)
  have hbalanced := read_balanced.1 (blockEntries lines) hplaced
  rw [origins_blockEntries_eq] at hbalanced
  have hgaps : Thinned (Gap (readBlock lines).2) (lines.filter BodyLine.isContent) lines :=
    .of_filter _ (fun _ hy => .inl hy) lines
  exact ⟨hbalanced (readBlock lines).2 lines (fun _ h => h) hgaps, fun _ => rfl⟩

/-- A line below one that is no pair is neither kept nor reported. -/
theorem line_below_no_pair_lost :
    (readBlock [⟨1, 0, ": 5"⟩, ⟨2, 2, "  nested: 1"⟩]).1.lines = [] ∧
      (readBlock [⟨1, 0, ": 5"⟩, ⟨2, 2, "  nested: 1"⟩]).2 = [⟨.notAPair, ⟨1, 0, ": 5"⟩⟩] := by
  decide +kernel

end Literal

end Trellis
