import Mathlib.Data.List.Forall2
import Trellis.Proofs.LiteralBlock

/-!
# Literal blocks see the order of indents

Two blocks whose lines have the same texts, and indents in the same order, describe the same literal and leave out
corresponding lines (`readBlock_like`).  The one place where the reader counts, the indent of a pair behind a dash
without lines below it, makes a block of a single line, in which there is nothing to compare.
-/

namespace Trellis

/-- Corresponding elements agree on being taken. -/
theorem forall₂_takeWhile_dropWhile {α β : Type} {R : α → β → Prop} {p : α → Bool} {q : β → Bool}
    (hpq : ∀ a b, R a b → p a = q b) {xs : List α} {ys : List β} (h : List.Forall₂ R xs ys) :
    List.Forall₂ R (xs.takeWhile p) (ys.takeWhile q) ∧ List.Forall₂ R (xs.dropWhile p) (ys.dropWhile q) := by
  induction h with
  | nil => exact ⟨.nil, .nil⟩
  | @cons a b xs ys hab hxs ih =>
    have hq := hpq a b hab
    cases hp : p a with
    | true =>
      rw [hp] at hq
      rw [List.takeWhile_cons_of_pos hp, List.takeWhile_cons_of_pos hq.symm, List.dropWhile_cons_of_pos hp,
        List.dropWhile_cons_of_pos hq.symm]
      exact ⟨.cons hab ih.1, ih.2⟩
    | false =>
      rw [hp] at hq
      have hp' : ¬ p a = true := by simp [hp]
      have hq' : ¬ q b = true := by simp [← hq]
      rw [List.takeWhile_cons_of_neg hp', List.takeWhile_cons_of_neg hq', List.dropWhile_cons_of_neg hp',
        List.dropWhile_cons_of_neg hq']
      exact ⟨.nil, .cons hab hxs⟩

namespace Literal

/-- The relation keeps the order of indents. -/
def KeepsOrder (T : Int → Int → Prop) : Prop := ∀ {a a' b b'}, T a a' → T b b' → (a < b ↔ a' < b')

/-- Two lines of blocks that differ in their indents and origins. -/
structure Entry.Like (T : Int → Int → Prop) (L : BodyLine → BodyLine → Prop) (e e' : Entry) : Prop where
  indent : T e.indent e'.indent
  text : e.text = e'.text
  origin : L e.origin e'.origin

/-- Two items that differ in their indents and origins. -/
structure Item.Like (T : Int → Int → Prop) (L : BodyLine → BodyLine → Prop) (i i' : Item) : Prop where
  content : i.content = i'.content
  origin : L i.origin i'.origin
  below : List.Forall₂ (Entry.Like T L) i.below i'.below

/-- Two lines that are left out for the same reason. -/
structure BlockReport.Like (L : BodyLine → BodyLine → Prop) (b b' : BlockReport) : Prop where
  fault : b.fault = b'.fault
  origin : L b.origin b'.origin

variable {T : Int → Int → Prop} {L : BodyLine → BodyLine → Prop}

/-! ### Grouping and nesting -/

theorem group_like (hT : KeepsOrder T) {base base' : Int} (hbase : T base base') {es es' : List Entry}
    (h : List.Forall₂ (Entry.Like T L) es es') :
    List.Forall₂ (Entry.Like T L) (group base es).pending (group base' es').pending ∧
    List.Forall₂ (Item.Like T L) (group base es).items (group base' es').items ∧
    List.Forall₂ (BlockReport.Like L) (group base es).reports (group base' es').reports := by
  induction h with
  | nil => exact ⟨.nil, .nil, .nil⟩
  | @cons e e' es es' he _ ih =>
    obtain ⟨hp, hi, hr⟩ := ih
    have hlt := hT hbase he.indent
    simp only [group]
    by_cases hd : base < e.indent
    · rw [if_pos hd, if_pos (hlt.mp hd)]
      exact ⟨.cons he hp, hi, hr⟩
    · rw [if_neg hd, if_neg (mt hlt.mpr hd), ← he.text]
      split
      · exact ⟨.nil, .cons ⟨rfl, he.origin, hp⟩ hi, hr⟩
      · exact ⟨hp, hi, .cons ⟨rfl, he.origin⟩ hr⟩

theorem below_beyond_like (hT : KeepsOrder T) {e e' : Entry} (he : Entry.Like T L e e') {es es' : List Entry}
    (h : List.Forall₂ (Entry.Like T L) es es') :
    List.Forall₂ (Entry.Like T L) (e.below es) (e'.below es') ∧
      List.Forall₂ (Entry.Like T L) (e.beyond es) (e'.beyond es') := by
  refine forall₂_takeWhile_dropWhile (fun x y hxy => ?_) h
  exact decide_eq_decide.mpr (hT he.indent hxy.indent)

theorem min_like (hT : KeepsOrder T) {a a' b b' : Int} (ha : T a a') (hb : T b b') : T (min a b) (min a' b') := by
  have hlt := hT hb ha
  rcases Int.lt_or_le b a with h | h
  · rw [Int.min_eq_right (Int.le_of_lt h), Int.min_eq_right (Int.le_of_lt (hlt.mp h))]
    exact hb
  · have h' : a' ≤ b' := by
      rcases Int.lt_or_le b' a' with h' | h'
      · have := hlt.mpr h'
        omega
      · exact h'
    rw [Int.min_eq_left h, Int.min_eq_left h']
    exact ha

theorem foldl_min_like (hT : KeepsOrder T) {a a' : Int} (ha : T a a') {es es' : List Entry}
    (h : List.Forall₂ (Entry.Like T L) es es') :
    T (es.foldl (fun m x => min m x.indent) a) (es'.foldl (fun m x => min m x.indent) a') := by
  induction h generalizing a a' with
  | nil => exact ha
  | cons he _ ih => exact ih (min_like hT ha he.indent)

/-- The lines of two like items that open a pair are like again; without lines below, the pair stands alone and any
two indents will do. -/
theorem opened_like (hT : KeepsOrder T) {i i' : Item} (h : Item.Like T L i i') :
    ∃ T' : Int → Int → Prop, KeepsOrder T' ∧ List.Forall₂ (Entry.Like T' L) i.opened i'.opened := by
  obtain ⟨n, content, origin, below⟩ := i
  obtain ⟨n', content', origin', below'⟩ := i'
  obtain ⟨hc, ho, hb⟩ := h
  cases hb with
  | nil =>
    refine ⟨fun a a' => a = n + 2 ∧ a' = n' + 2, ?_, .cons ⟨⟨rfl, rfl⟩, hc, ho⟩ .nil⟩
    rintro a a' b b' ⟨rfl, rfl⟩ ⟨rfl, rfl⟩
    omega
  | cons he hes =>
    exact ⟨T, hT, .cons ⟨foldl_min_like hT he.indent hes, hc, ho⟩ (.cons he hes)⟩

/-! ### Reading -/

/-- The two readings describe one literal and leave out corresponding lines. -/
structure Agree (L : BodyLine → BodyLine → Prop) (x y : Sourced × List BlockReport) : Prop where
  tree : x.1.tree = y.1.tree
  reports : List.Forall₂ (BlockReport.Like L) x.2 y.2

theorem reports_of_lines (fault : BlockFault) {es es' : List Entry} (h : List.Forall₂ (Entry.Like T L) es es') :
    List.Forall₂ (BlockReport.Like L) (es.map fun e => ⟨fault, e.origin⟩) (es'.map fun e => ⟨fault, e.origin⟩) := by
  rw [List.forall₂_map_left_iff, List.forall₂_map_right_iff]
  exact h.imp fun e e' he => ⟨rfl, he.origin⟩

theorem readItem_like {i i' : Item} (hT : KeepsOrder T) (h : Item.Like T L i i')
    (hbelow : ∀ T es', KeepsOrder T → List.Forall₂ (Entry.Like T L) i.below es' →
      Agree L (readEntries i.below) (readEntries es'))
    (hopened : ∀ T es', KeepsOrder T → List.Forall₂ (Entry.Like T L) i.opened es' →
      Agree L (readEntries i.opened) (readEntries es')) :
    Agree L (readItem i) (readItem i') := by
  unfold readItem
  rw [← h.content]
  split
  · exact hbelow T _ hT h.below
  · split
    · exact ⟨rfl, reports_of_lines _ h.below⟩
    · obtain ⟨T', hT', ho⟩ := opened_like hT h
      exact hopened T' _ hT' ho

/-- Blocks, the pairs of objects and the items of lists that are like are read alike. -/
theorem read_like :
    (∀ es, ∀ (T : Int → Int → Prop) es', KeepsOrder T → List.Forall₂ (Entry.Like T L) es es' →
      Agree L (readEntries es) (readEntries es')) ∧
    (∀ es, ∀ (T : Int → Int → Prop) es', KeepsOrder T → List.Forall₂ (Entry.Like T L) es es' →
      Sourced.treeEntries (readPairs es).1 = Sourced.treeEntries (readPairs es').1 ∧
        List.Forall₂ (BlockReport.Like L) (readPairs es).2 (readPairs es').2) ∧
    (∀ items, ∀ (T : Int → Int → Prop) items', KeepsOrder T → List.Forall₂ (Item.Like T L) items items' →
      Sourced.treeItems (readItems items).1 = Sourced.treeItems (readItems items').1 ∧
        List.Forall₂ (BlockReport.Like L) (readItems items).2 (readItems items').2) := by
  apply block_induction
  case nil =>
    rintro T _ - ⟨⟩
    exact ⟨rfl, by rw [readEntries_nil]; exact .nil⟩
  case list =>
    rintro e es hd ih T (_ | ⟨e', es'⟩) hT h
    · cases h
    have he : Entry.Like T L e e' := (List.forall₂_cons.mp h).1
    -- grouping looks at indents only through their order, so the items are like too
    obtain ⟨-, hi, hr⟩ := group_like hT he.indent h
    obtain ⟨htree, hreports⟩ := ih T _ hT hi
    rw [readEntries_list es hd, readEntries_list es' (he.text ▸ hd)]
    exact ⟨by simp only [Sourced.tree, htree], List.rel_append hr hreports⟩
  case object =>
    rintro e es hd ih T (_ | ⟨e', es'⟩) hT h
    · cases h
    have he : Entry.Like T L e e' := (List.forall₂_cons.mp h).1
    obtain ⟨htree, hreports⟩ := ih T _ hT h
    rw [readEntries_object es hd, readEntries_object es' (he.text ▸ hd)]
    exact ⟨by simp only [Sourced.tree, htree], hreports⟩
  case noPairs =>
    rintro T _ - ⟨⟩
    exact ⟨rfl, by rw [readPairs_nil]; exact .nil⟩
  case pair =>
    rintro e es ihbelow ihbeyond T (_ | ⟨e', es'⟩) hT h
    · cases h
    obtain ⟨he, hes⟩ := List.forall₂_cons.mp h
    obtain ⟨hbelow, hbeyond⟩ := below_beyond_like hT he hes
    obtain ⟨htree, hreports⟩ := ihbeyond T _ hT hbeyond
    -- the parts of a pair depend on the text of its line alone
    have hkey : e.key = e'.key := by unfold Entry.key; rw [he.text]
    have hvalue : e.value = e'.value := by unfold Entry.value; rw [he.text]
    have hpair : e.isPair = e'.isPair := by unfold Entry.isPair; rw [he.text, hkey]
    cases hp : e.isPair with
    | false =>
      rw [readPairs_drop es hp, readPairs_drop es' (hpair ▸ hp)]
      exact ⟨htree, .cons ⟨rfl, he.origin⟩ hreports⟩
    | true =>
      by_cases hv : e.value = []
      · -- the value is the block below
        obtain ⟨htree', hreports'⟩ := ihbelow T _ hT hbelow
        rw [readPairs_nest es hp hv, readPairs_nest es' (hpair ▸ hp) (hvalue ▸ hv)]
        exact ⟨by simp only [Sourced.treeEntries, hkey, htree, htree'], List.rel_append hreports' hreports⟩
      · -- the value is on the line, and the lines below are reported
        rw [readPairs_scalar es hp hv, readPairs_scalar es' (hpair ▸ hp) (hvalue ▸ hv), ← hkey, ← hvalue]
        exact ⟨by simp only [Sourced.treeEntries, htree], List.rel_append (reports_of_lines _ hbelow) hreports⟩
  case noItems =>
    rintro T _ - ⟨⟩
    exact ⟨rfl, by rw [readItems_nil]; exact .nil⟩
  case item =>
    rintro i is ihbelow ihopened ihrest T (_ | ⟨i', is'⟩) hT h
    · cases h
    obtain ⟨hi, his⟩ := List.forall₂_cons.mp h
    obtain ⟨htree, hreports⟩ := ihrest T _ hT his
    have hitem := readItem_like hT hi ihbelow ihopened
    rw [readItems_cons, readItems_cons]
    exact ⟨by simp only [Sourced.treeItems, hitem.tree, htree], List.rel_append hitem.reports hreports⟩

/-- **Blocks see the order of indents.**  Blocks whose lines correspond, with the same codes and the same order of
indents, are read alike. -/
theorem readBlock_like (hcode : ∀ {l m}, L l m → l.code = m.code) (hcomment : ∀ {l m}, L l m → l.isComment = m.isComment)
    (horder : ∀ {l m l' m'}, L l m → L l' m' → (l.indent < l'.indent ↔ m.indent < m'.indent))
    {ls ms : List BodyLine} (h : List.Forall₂ L ls ms) : Agree L (readBlock ls) (readBlock ms) := by
  refine read_like.1 _ (fun a b => ∃ l m, L l m ∧ l.indent = a ∧ m.indent = b) _ ?_ ?_
  · rintro _ _ _ _ ⟨l, m, hl, rfl, rfl⟩ ⟨l', m', hl', rfl, rfl⟩
    exact horder hl hl'
  · refine List.rel_filterMap (fun l m hl => ?_) h
    rw [← hcode hl, ← hcomment hl]
    split
    · exact .none
    · exact .some ⟨⟨l, m, hl, rfl, rfl⟩, rfl, hl⟩

end Literal

end Trellis
