import Trellis.Literal.Block

/-!
# Reading literal blocks

The equations of the block reader, one for each kind of line, and where the lines it reports come from: every report
is about a line of the block (`readBlock_reports`).
-/

namespace Trellis.Literal

/-- The text before the first colon outside quotes. -/
def Entry.key (e : Entry) : Text :=
  match findUnquoted ':' e.text with
  | some i => Text.trim (e.text.take i)
  | none => []

/-- The text behind the first colon outside quotes. -/
def Entry.value (e : Entry) : Text := Text.trim (e.text.drop ((findUnquoted ':' e.text).getD 0 + 1))

/-- The line has the form `key: value`, with or without a value. -/
def Entry.isPair (e : Entry) : Bool := !(e.text.head? = some '-' || e.key.isEmpty)

/-- The lines directly below a line that are deeper than it. -/
def Entry.below (e : Entry) (es : List Entry) : List Entry := es.takeWhile fun x => e.indent < x.indent

/-- The lines behind those below a line. -/
def Entry.beyond (e : Entry) (es : List Entry) : List Entry := es.dropWhile fun x => e.indent < x.indent

/-- The lines of an item whose dash is followed by a pair: the pair counts as indented like the least of the others. -/
def Item.opened (i : Item) : List Entry := ⟨leastIndent (i.indent + 2) i.below, i.content, i.origin⟩ :: i.below

def readItem (i : Item) : Sourced × List BlockReport :=
  if i.content.isEmpty then readEntries i.below
  else if (findUnquoted ':' i.content).isNone then
    (.scalar i.content, i.below.map fun e => ⟨.afterScalar, e.origin⟩)
  else readEntries i.opened

/-! ### Equations -/

theorem readEntries_nil : readEntries [] = (.scalar "null", []) := by
  rw [readEntries]

theorem readEntries_list {e : Entry} (es : List Entry) (h : e.text.head? = some '-') :
    readEntries (e :: es) = (.list (readItems (group e.indent (e :: es)).items).1,
      (group e.indent (e :: es)).reports ++ (readItems (group e.indent (e :: es)).items).2) := by
  rw [readEntries, if_pos h]

theorem readEntries_object {e : Entry} (es : List Entry) (h : e.text.head? ≠ some '-') :
    readEntries (e :: es) = (.object (readPairs (e :: es)).1, (readPairs (e :: es)).2) := by
  rw [readEntries, if_neg h]

theorem readItems_nil : readItems [] = ([], []) := by
  rw [readItems]

theorem readItems_cons (i : Item) (is : List Item) :
    readItems (i :: is) = ((i.origin, (readItem i).1) :: (readItems is).1, (readItem i).2 ++ (readItems is).2) := by
  rw [readItems]
  rfl

theorem readPairs_nil : readPairs [] = ([], []) := by
  rw [readPairs]

theorem readPairs_drop {e : Entry} (es : List Entry) (h : e.isPair = false) :
    readPairs (e :: es) = ((readPairs (e.beyond es)).1, ⟨.notAPair, e.origin⟩ :: (readPairs (e.beyond es)).2) := by
  have h' : (decide (e.text.head? = some '-') || e.key.isEmpty) = true := by
    simpa only [Entry.isPair, Bool.not_eq_false'] using h
  rw [readPairs]
  exact if_pos h'

theorem readPairs_nest {e : Entry} (es : List Entry) (h : e.isPair = true) (hv : e.value = []) :
    readPairs (e :: es) =
      ((e.origin, Value.unquote e.key, (readEntries (e.below es)).1) :: (readPairs (e.beyond es)).1,
        (readEntries (e.below es)).2 ++ (readPairs (e.beyond es)).2) := by
  have h' : ¬ (decide (e.text.head? = some '-') || e.key.isEmpty) = true := by simpa [Entry.isPair] using h
  have hv' : e.value.isEmpty = true := by simp [hv]
  rw [readPairs]
  exact (if_neg h').trans (if_pos hv')

theorem readPairs_scalar {e : Entry} (es : List Entry) (h : e.isPair = true) (hv : e.value ≠ []) :
    readPairs (e :: es) =
      ((e.origin, Value.unquote e.key, .scalar e.value) :: (readPairs (e.beyond es)).1,
        (e.below es).map (fun x => ⟨.underKey e.key, x.origin⟩) ++ (readPairs (e.beyond es)).2) := by
  have h' : ¬ (decide (e.text.head? = some '-') || e.key.isEmpty) = true := by simpa [Entry.isPair] using h
  have hv' : ¬ e.value.isEmpty = true := by simpa using hv
  rw [readPairs]
  exact (if_neg h').trans (if_neg hv')

/-! ### Induction -/

/-- Induction over a block, the pairs of an object and the items of a list, along the block reader.  Every case may
use the smaller parts whether or not the reader looks at them. -/
theorem block_induction {P Q : List Entry → Prop} {R : List Item → Prop} (nil : P [])
    (list : ∀ e es, e.text.head? = some '-' → R (group e.indent (e :: es)).items → P (e :: es))
    (object : ∀ e es, e.text.head? ≠ some '-' → Q (e :: es) → P (e :: es))
    (noPairs : Q []) (pair : ∀ (e : Entry) es, P (e.below es) → Q (e.beyond es) → Q (e :: es))
    (noItems : R []) (item : ∀ (i : Item) is, P i.below → P i.opened → R is → R (i :: is)) :
    (∀ es, P es) ∧ (∀ es, Q es) ∧ ∀ is, R is := by
  -- the measures of the reader's own recursion, bounded by `n`
  have key : ∀ n, (∀ es, 3 * weight es + 2 ≤ n → P es) ∧ (∀ es, 3 * weight es + 1 ≤ n → Q es) ∧
      ∀ is, 3 * itemsWeight is + 1 ≤ n → R is := by
    intro n
    induction n with
    | zero => exact ⟨fun _ h => by omega, fun _ h => by omega, fun _ h => by omega⟩
    | succ n ih =>
      obtain ⟨hP, hQ, hR⟩ := ih
      refine ⟨fun es h => ?_, fun es h => ?_, fun is h => ?_⟩
      · cases es with
        | nil => exact nil
        | cons e es =>
          by_cases hd : e.text.head? = some '-'
          · have := group_weight e.indent (e :: es)
            exact list e es hd (hR _ (by omega))
          · exact object e es hd (hQ _ (by omega))
      · cases es with
        | nil => exact noPairs
        | cons e es =>
          simp only [weight] at h
          have hbelow : weight (e.below es) ≤ weight es := weight_takeWhile_le _ es
          have hbeyond : weight (e.beyond es) ≤ weight es := weight_dropWhile_le _ es
          exact pair e es (hP _ (by omega)) (hQ _ (by omega))
      · cases is with
        | nil => exact noItems
        | cons i is =>
          simp only [itemsWeight] at h
          have hopened : weight i.opened = i.content.length + 1 + weight i.below := rfl
          exact item i is (hP _ (by omega)) (hP _ (by omega)) (hR _ (by omega))
  exact ⟨fun es => (key _).1 es (Nat.le_refl _), fun es => (key _).2.1 es (Nat.le_refl _),
    fun is => (key _).2.2 is (Nat.le_refl _)⟩

/-! ### The lines that are reported -/

section Origins

variable {S : BodyLine → Prop}

/-- The lines of some items. -/
def ItemsIn (S : BodyLine → Prop) (items : List Item) : Prop :=
  ∀ i ∈ items, S i.origin ∧ ∀ e ∈ i.below, S e.origin

theorem group_origins (base : Int) (es : List Entry) (h : ∀ e ∈ es, S e.origin) :
    (∀ e ∈ (group base es).pending, S e.origin) ∧ ItemsIn S (group base es).items ∧
      ∀ b ∈ (group base es).reports, S b.origin := by
  induction es with
  | nil => simp [group, ItemsIn]
  | cons e es ih =>
    obtain ⟨he, hes⟩ := List.forall_mem_cons.mp h
    obtain ⟨hp, hi, hr⟩ := ih hes
    simp only [group]
    split
    · exact ⟨List.forall_mem_cons.mpr ⟨he, hp⟩, hi, hr⟩
    · split
      · exact ⟨by simp, List.forall_mem_cons.mpr ⟨⟨he, hp⟩, hi⟩, hr⟩
      · exact ⟨hp, hi, List.forall_mem_cons.mpr ⟨he, hr⟩⟩

theorem below_origins {e : Entry} {es : List Entry} (h : ∀ x ∈ es, S x.origin) : ∀ x ∈ e.below es, S x.origin :=
  fun x hx => h x (List.takeWhile_sublist _ |>.mem hx)

theorem beyond_origins {e : Entry} {es : List Entry} (h : ∀ x ∈ es, S x.origin) : ∀ x ∈ e.beyond es, S x.origin :=
  fun x hx => h x (List.dropWhile_sublist _ |>.mem hx)

theorem readItem_reports {i : Item} (hi : S i.origin ∧ ∀ e ∈ i.below, S e.origin)
    (hbelow : (∀ e ∈ i.below, S e.origin) → ∀ b ∈ (readEntries i.below).2, S b.origin)
    (hopened : (∀ e ∈ i.opened, S e.origin) → ∀ b ∈ (readEntries i.opened).2, S b.origin) :
    ∀ b ∈ (readItem i).2, S b.origin := by
  unfold readItem
  split
  · exact hbelow hi.2
  · split
    · intro b hb
      obtain ⟨e, he, rfl⟩ := List.mem_map.mp hb
      exact hi.2 e he
    · exact hopened (List.forall_mem_cons.mpr hi)

/-- The reports of a block, of the pairs of an object and of the items of a list are about their own lines. -/
theorem reports_origins :
    (∀ es, (∀ e ∈ es, S e.origin) → ∀ b ∈ (readEntries es).2, S b.origin) ∧
    (∀ es, (∀ e ∈ es, S e.origin) → ∀ b ∈ (readPairs es).2, S b.origin) ∧
    (∀ items, ItemsIn S items → ∀ b ∈ (readItems items).2, S b.origin) := by
  apply block_induction
  case nil =>
    intro _
    simp [readEntries_nil]
  case list =>
    intro e es hd ih h
    obtain ⟨-, hi, hr⟩ := group_origins e.indent (e :: es) h
    rw [readEntries_list es hd]
    exact List.forall_mem_append.mpr ⟨hr, ih hi⟩
  case object =>
    intro e es hd ih h
    rw [readEntries_object es hd]
    exact ih h
  case noPairs =>
    intro _
    simp [readPairs_nil]
  case pair =>
    intro e es ihbelow ihbeyond h
    obtain ⟨he, hes⟩ := List.forall_mem_cons.mp h
    cases hp : e.isPair with
    | false =>
      rw [readPairs_drop es hp]
      exact List.forall_mem_cons.mpr ⟨he, ihbeyond (beyond_origins hes)⟩
    | true =>
      by_cases hv : e.value = []
      · -- the value is the block below
        rw [readPairs_nest es hp hv]
        exact List.forall_mem_append.mpr ⟨ihbelow (below_origins hes), ihbeyond (beyond_origins hes)⟩
      · -- the value is on the line, and every line below is reported
        rw [readPairs_scalar es hp hv]
        refine List.forall_mem_append.mpr ⟨fun b hb => ?_, ihbeyond (beyond_origins hes)⟩
        obtain ⟨x, hx, rfl⟩ := List.mem_map.mp hb
        exact below_origins hes x hx
  case noItems =>
    intro _
    simp [readItems_nil]
  case item =>
    intro i is ihbelow ihopened ihrest h
    obtain ⟨hi, his⟩ := List.forall_mem_cons.mp h
    rw [readItems_cons]
    exact List.forall_mem_append.mpr ⟨readItem_reports hi ihbelow ihopened, ihrest his⟩

end Origins

/-- Every report of a block is about one of its lines. -/
theorem readBlock_reports {lines : List BodyLine} {b : BlockReport} (h : b ∈ (readBlock lines).2) :
    b.origin ∈ lines := by
  refine reports_origins.1 (blockEntries lines) (fun e he => ?_) b h
  obtain ⟨l, hl, hle⟩ := List.mem_filterMap.mp he
  split at hle
  · cases hle
  · cases hle
    exact hl

end Trellis.Literal
