import Trellis.Proofs.BlockOrder
import Trellis.Proofs.CodeText

/-!
# Laying out literals

`layout d v` writes a literal at the indent `d`, every item and every entry on a line of its own and the block of a
value two columns deeper.  Reading these lines gives the literal back and leaves no line out (`readBlock_layout`).
-/

namespace Trellis

namespace Literal

/-! ### Literals that can be written -/

/-- A scalar that can be written behind a dash or a key: it is code without a colon outside quotes.  Every word is one
(`isScalarText_of_isWord`). -/
def isScalarText (s : Text) : Bool := !s.isEmpty && stripComment s = s && (findUnquoted ':' s).isNone

/-- A character that stands for itself in a key. -/
def isKeyChar (c : Char) : Bool := !Text.isBlank c && !isQuote c && c ≠ ':' && c ≠ '#'

/-- A key that can be written without quotes.  Every name is one (`isKeyText_of_isName`). -/
def isKeyText (k : Text) : Bool := !k.isEmpty && k.head? ≠ some '-' && k.all isKeyChar

def isScalar : Literal → Bool
  | .scalar _ => true
  | _ => false

mutual

/-- The literal can be written: its scalars and keys can, and none of its lists and objects is empty. -/
def isWritable : Literal → Bool
  | .scalar s => isScalarText s
  | .list items => !items.isEmpty && areWritable items
  | .object entries => !entries.isEmpty && haveWritable entries

def areWritable : List Literal → Bool
  | [] => true
  | v :: vs => isWritable v && areWritable vs

def haveWritable : List (Text × Literal) → Bool
  | [] => true
  | (k, v) :: es => isKeyText k && isWritable v && haveWritable es

end

theorem areWritable_cons {v : Literal} {vs : List Literal} :
    areWritable (v :: vs) = true ↔ v.isWritable = true ∧ areWritable vs = true := by
  simp [areWritable]

theorem areWritable_append {vs ws : List Literal} :
    areWritable (vs ++ ws) = true ↔ areWritable vs = true ∧ areWritable ws = true := by
  induction vs with
  | nil => simp [areWritable]
  | cons v vs ih => rw [List.cons_append, areWritable_cons, areWritable_cons, ih, and_assoc]

theorem haveWritable_cons {k : Text} {v : Literal} {es : List (Text × Literal)} :
    haveWritable ((k, v) :: es) = true ↔ (isKeyText k = true ∧ v.isWritable = true) ∧ haveWritable es = true := by
  simp [haveWritable]

theorem isWritable_object_cons {k : Text} {v : Literal} {es : List (Text × Literal)} :
    isWritable (.object ((k, v) :: es)) = true ↔
      (isKeyText k = true ∧ v.isWritable = true) ∧ haveWritable es = true := by
  rw [← haveWritable_cons]
  simp [isWritable]

theorem exists_scalar {v : Literal} (h : v.isScalar = true) : ∃ s, v = .scalar s := by
  cases v with
  | scalar s => exact ⟨s, rfl⟩
  | list items => cases h
  | object es => cases h

/-! ### The layout -/

/-- A dash and the text behind it. -/
def dashed (t : Text) : Text := '-' :: ' ' :: t

/-- The line of an item; what is not a scalar follows below it. -/
def itemLine : Literal → Text
  | .scalar s => dashed s
  | _ => ['-']

/-- The line of an entry; what is not a scalar follows below it. -/
def entryLine (k : Text) : Literal → Text
  | .scalar s => k ++ ':' :: ' ' :: s
  | _ => k ++ [':']

mutual

/-- The lines of a literal at an indent, each with its own indent.  A scalar has none: it stands on the line of its item
or entry. -/
def layout (d : Int) : Literal → List (Int × Text)
  | .scalar _ => []
  | .list items => layoutItems d items
  | .object entries => layoutEntries d entries

def layoutItems (d : Int) : List Literal → List (Int × Text)
  | [] => []
  | v :: vs => (d, itemLine v) :: (layout (d + 2) v ++ layoutItems d vs)

def layoutEntries (d : Int) : List (Text × Literal) → List (Int × Text)
  | [] => []
  | (k, v) :: es => (d, entryLine k v) :: (layout (d + 2) v ++ layoutEntries d es)

end

/-- The body lines have these indents and texts, whatever their numbers and the blanks around their texts. -/
def Written (ls : List BodyLine) (lines : List (Int × Text)) : Prop := ls.map (fun l => (l.indent, l.text)) = lines

/-! ### The texts of the lines -/

variable {s t k : Text} {v : Literal} {es : List (Text × Literal)} {items : List Literal} {o : BodyLine} {d : Int}

theorem isScalarText_iff : isScalarText s = true ↔ IsCode s ∧ findUnquoted ':' s = none := by
  unfold isScalarText IsCode
  simp [and_assoc]

theorem isKeyText_iff : isKeyText k = true ↔ k ≠ [] ∧ k.head? ≠ some '-' ∧ ∀ c ∈ k, isKeyChar c = true := by
  unfold isKeyText
  simp [and_assoc]

theorem bare_of_isKeyText (h : isKeyText k = true) : Bare ':' k ∧ Bare '#' k := by
  obtain ⟨-, -, hall⟩ := isKeyText_iff.mp h
  constructor <;>
  · intro c hc
    have hchar := hall c hc
    simp only [isKeyChar, Bool.and_eq_true, Bool.not_eq_true', decide_eq_true_eq] at hchar
    tauto

theorem not_isBlank_of_isKeyText (h : isKeyText k = true) : ∀ c ∈ k, Text.isBlank c = false := by
  obtain ⟨-, -, hall⟩ := isKeyText_iff.mp h
  intro c hc
  have hchar := hall c hc
  simp only [isKeyChar, Bool.and_eq_true, Bool.not_eq_true'] at hchar
  exact hchar.1.1.1

theorem head_isKeyText (h : isKeyText k = true) (t : Text) :
    ∃ c r, k ++ t = c :: r ∧ c ≠ '-' ∧ Text.isBlank c = false := by
  have hblank := not_isBlank_of_isKeyText h
  obtain ⟨hne, hhead, -⟩ := isKeyText_iff.mp h
  cases k with
  | nil => exact absurd rfl hne
  | cons c k => exact ⟨c, k ++ t, rfl, fun hc => hhead (congrArg some hc), hblank c List.mem_cons_self⟩

/-- What a literal puts on the line of its item or entry. -/
def inline : Literal → Text
  | .scalar s => s
  | _ => []

theorem isCode_dashed (ht : IsCode t) : IsCode (dashed t) :=
  ht.behind (s := ['-', ' ']) (by simp [Bare, isQuote]) (by simp [Text.isBlank])

theorem isCode_itemLine (hv : v.isWritable = true) : IsCode (itemLine v) := by
  have hdash : IsCode ['-'] := ⟨by simp, by decide⟩
  cases v with
  | scalar s => exact isCode_dashed (isScalarText_iff.mp hv).1
  | list items => exact hdash
  | object entries => exact hdash

theorem isCode_entryLine (hk : isKeyText k = true) (hv : v.isWritable = true) : IsCode (entryLine k v) := by
  obtain ⟨-, hbare⟩ := bare_of_isKeyText hk
  have hhead : ∀ t : Text, ∀ c ∈ (k ++ t).head?, Text.isBlank c = false := by
    intro t c hc
    obtain ⟨c', r, heq, -, hblank⟩ := head_isKeyText hk t
    rw [heq] at hc
    obtain rfl := Option.some.inj hc
    exact hblank
  have hcolon : IsCode (k ++ [':']) := IsCode.behind ⟨by simp, by decide⟩ hbare (hhead _)
  cases v with
  | scalar s =>
    have hs : IsCode s := (isScalarText_iff.mp hv).1
    have hbefore : Bare '#' (k ++ [':', ' ']) := hbare.append (by simp [Bare, isQuote])
    have hline : k ++ ':' :: ' ' :: s = (k ++ [':', ' ']) ++ s := by simp
    show IsCode (k ++ ':' :: ' ' :: s)
    rw [hline]
    refine hs.behind hbefore ?_
    rw [← hline]
    exact hhead _
  | list items => exact hcolon
  | object entries => exact hcolon

/-- The line of an entry is its key, a colon and what stands on the line of the value. -/
theorem entryLine_eq (k : Text) (hv : v.isWritable = true) :
    ∃ r, entryLine k v = k ++ ':' :: r ∧ Text.trim r = v.inline := by
  cases v with
  | scalar s => exact ⟨' ' :: s, rfl, (isScalarText_iff.mp hv).1.trim_blank_cons⟩
  | list items => exact ⟨[], rfl, rfl⟩
  | object entries => exact ⟨[], rfl, rfl⟩

/-- The line of an item is a dash and what stands on the line of the value. -/
theorem itemLine_eq (hv : v.isWritable = true) : ∃ r, itemLine v = '-' :: r ∧ Text.trim r = v.inline := by
  cases v with
  | scalar s => exact ⟨' ' :: s, rfl, (isScalarText_iff.mp hv).1.trim_blank_cons⟩
  | list items => exact ⟨[], rfl, rfl⟩
  | object entries => exact ⟨[], rfl, rfl⟩

theorem inline_eq_nil_iff (hv : v.isWritable = true) : v.inline = [] ↔ v.isScalar = false := by
  cases v with
  | scalar s =>
    have hs : s ≠ [] := (isScalarText_iff.mp hv).1.1
    simp [inline, isScalar, hs]
  | list items => simp [inline, isScalar]
  | object entries => simp [inline, isScalar]

theorem trim_of_isKeyText (hk : isKeyText k = true) : Text.trim k = k :=
  Text.trim_of_not_blank (not_isBlank_of_isKeyText hk)

theorem isKeyChar_of_isNamePart {c : Char} (h : Text.isNamePart c = true) : isKeyChar c = true := by
  have hsign : ∀ d ∈ ['"', '\'', '`', ':', '#'], c ≠ d := by
    rintro d hd rfl
    have hnone : ['"', '\'', '`', ':', '#'].all (fun d => !Text.isNamePart d) = true := by decide
    have hc := List.all_eq_true.mp hnone _ hd
    rw [h] at hc
    cases hc
  have hblank : Text.isBlank c = false := by
    rcases Bool.or_eq_true_iff.mp h with hword | hdollar
    · exact Text.isBlank_of_isWord hword
    · rw [decide_eq_true_eq] at hdollar
      subst hdollar
      rfl
  simp only [List.forall_mem_cons] at hsign
  simp [isKeyChar, hblank, isQuote, hsign]

theorem isKeyText_of_isNamePart (hne : k ≠ []) (h : ∀ c ∈ k, Text.isNamePart c = true) : isKeyText k = true := by
  refine isKeyText_iff.mpr ⟨hne, fun hdash => ?_, fun c hc => isKeyChar_of_isNamePart (h c hc)⟩
  exact absurd (h '-' (List.mem_of_mem_head? hdash)) (by decide)

/-- Identifiers are keys. -/
theorem isKeyText_of_isName (h : Text.isName k = true) : isKeyText k = true := by
  cases k with
  | nil => cases h
  | cons c k =>
    obtain ⟨hstart, hparts⟩ := Bool.and_eq_true_iff.mp h
    exact isKeyText_of_isNamePart (List.cons_ne_nil c k)
      (List.forall_mem_cons.mpr ⟨Text.isNamePart_of_isNameStart hstart, List.all_eq_true.mp hparts⟩)

/-- Plain words are scalars. -/
theorem isScalarText_of_isWord (hne : s ≠ []) (h : ∀ c ∈ s, Text.isWord c = true) : isScalarText s = true := by
  have hkey : isKeyText s = true := isKeyText_of_isNamePart hne fun c hc => Bool.or_eq_true_iff.mpr (.inl (h c hc))
  have hfind : ∀ target, Bare target s → findUnquoted target s = none := by
    intro target hbare
    have happend := findUnquoted_bare_append hbare []
    rwa [List.append_nil] at happend
  obtain ⟨hcolon, hhash⟩ := bare_of_isKeyText hkey
  exact isScalarText_iff.mpr ⟨isCode_iff.mpr ⟨hne, hfind '#' hhash, trim_of_isKeyText hkey⟩, hfind ':' hcolon⟩

theorem unquote_of_isKeyText (hk : isKeyText k = true) : Value.unquote k = k := by
  obtain ⟨hbare, -⟩ := bare_of_isKeyText hk
  cases k with
  | nil => rfl
  | cons c k =>
    have hquote : isQuote c = false := (hbare c List.mem_cons_self).1
    unfold Value.unquote
    simp only [hquote]
    split <;> rfl

/-- What the reader sees on the line of an entry. -/
theorem entry_parts (hk : isKeyText k = true) (hv : v.isWritable = true) {e : Entry} (he : e.text = entryLine k v) :
    e.text.head? ≠ some '-' ∧ e.isPair = true ∧ Value.unquote e.key = k ∧ e.value = v.inline := by
  obtain ⟨r, hline, hr⟩ := entryLine_eq k hv
  rw [hline] at he
  -- a key holds no quote and no colon, so the first colon is the one behind it
  have hcolon : findUnquoted ':' e.text = some k.length := by
    rw [he, findUnquoted_bare_append (bare_of_isKeyText hk).1]
    simp [findUnquoted, findUnquotedFrom, isQuote]
  have hkey : e.key = k := by
    unfold Entry.key
    rw [hcolon, he]
    simp only [List.take_left, trim_of_isKeyText hk]
  have hhead : e.text.head? ≠ some '-' := by
    obtain ⟨c, r', heq, hne, -⟩ := head_isKeyText hk (':' :: r)
    rw [he, heq]
    simpa using hne
  refine ⟨hhead, ?_, ?_, ?_⟩
  · have hne : k ≠ [] := (isKeyText_iff.mp hk).1
    unfold Entry.isPair
    rw [hkey]
    simp [hhead, hne]
  · rw [hkey, unquote_of_isKeyText hk]
  · have hdrop : (k ++ ':' :: r).drop (k.length + 1) = r := by
      rw [← List.singleton_append, ← List.append_assoc]
      exact List.drop_left' (by simp)
    unfold Entry.value
    rw [hcolon, he, Option.getD_some, hdrop, hr]

/-! ### The indents of the lines -/

mutual

theorem le_indent_layout (d : Int) : ∀ (v : Literal), ∀ l ∈ layout d v, d ≤ l.1
  | .scalar _ => by simp [layout]
  | .list items => le_indent_layoutItems d items
  | .object entries => le_indent_layoutEntries d entries

theorem le_indent_layoutItems (d : Int) : ∀ (vs : List Literal), ∀ l ∈ layoutItems d vs, d ≤ l.1
  | [] => by simp [layoutItems]
  | v :: vs => by
    have hv := le_indent_layout (d + 2) v
    have hvs := le_indent_layoutItems d vs
    simp only [layoutItems, List.forall_mem_cons, List.forall_mem_append]
    exact ⟨Int.le_refl d, fun l hl => by have := hv l hl; omega, hvs⟩

theorem le_indent_layoutEntries (d : Int) : ∀ (es : List (Text × Literal)), ∀ l ∈ layoutEntries d es, d ≤ l.1
  | [] => by simp [layoutEntries]
  | (_, v) :: es => by
    have hv := le_indent_layout (d + 2) v
    have hes := le_indent_layoutEntries d es
    simp only [layoutEntries, List.forall_mem_cons, List.forall_mem_append]
    exact ⟨Int.le_refl d, fun l hl => by have := hv l hl; omega, hes⟩

end

theorem layoutItems_head (d : Int) (vs : List Literal) : ∀ l ∈ (layoutItems d vs).head?, l.1 = d := by
  cases vs <;> simp [layoutItems]

theorem layoutEntries_head (d : Int) (es : List (Text × Literal)) : ∀ l ∈ (layoutEntries d es).head?, l.1 = d := by
  cases es <;> simp [layoutEntries]

theorem layout_head (d : Int) (v : Literal) : ∀ l ∈ (layout d v).head?, l.1 = d := by
  cases v with
  | scalar s => simp [layout]
  | list items => exact layoutItems_head d items
  | object entries => exact layoutEntries_head d entries

/-- What is not a scalar has lines of its own. -/
theorem layout_cons (hv : v.isWritable = true) (h : v.isScalar = false) : ∃ l lines, layout d v = l :: lines := by
  cases v with
  | scalar s => cases h
  | list items =>
    cases items with
    | nil => cases hv
    | cons v vs => exact ⟨_, _, rfl⟩
  | object es =>
    cases es with
    | nil => cases hv
    | cons e es => exact ⟨_, _, rfl⟩

/-! ### Reading a layout -/

/-- The lines as lines of a block, with one origin for all. -/
def entriesAt (o : BodyLine) (lines : List (Int × Text)) : List Entry := lines.map fun l => ⟨l.1, l.2, o⟩

/-- The item of a value that is laid out. -/
def itemAt (o : BodyLine) (d : Int) (v : Literal) : Item := ⟨d, v.inline, o, entriesAt o (layout (d + 2) v)⟩

theorem entriesAt_append (o : BodyLine) (xs ys : List (Int × Text)) :
    entriesAt o (xs ++ ys) = entriesAt o xs ++ entriesAt o ys := List.map_append

theorem deeper_entriesAt {lines : List (Int × Text)} {n : Int} (h : ∀ l ∈ lines, n < l.1) :
    ∀ e ∈ entriesAt o lines, n < e.indent :=
  List.forall_mem_map.mpr h

theorem head_entriesAt {lines : List (Int × Text)} {n : Int} (h : ∀ l ∈ lines.head?, l.1 = n) :
    ∀ e ∈ (entriesAt o lines).head?, e.indent = n := by
  intro e he
  rw [entriesAt, List.head?_map] at he
  obtain ⟨l, hl, rfl⟩ := Option.map_eq_some_iff.mp he
  exact h l hl

theorem deeper_layout (o : BodyLine) (d : Int) (v : Literal) : ∀ e ∈ entriesAt o (layout (d + 2) v), d < e.indent := by
  refine deeper_entriesAt fun l hl => ?_
  have := le_indent_layout (d + 2) v l hl
  omega

theorem group_deeper_append {base : Int} {below : List Entry} (h : ∀ e ∈ below, base < e.indent) (rest : List Entry) :
    group base (below ++ rest) =
      { group base rest with pending := below ++ (group base rest).pending } := by
  induction below with
  | nil => rfl
  | cons e below ih =>
    obtain ⟨he, hbelow⟩ := List.forall_mem_cons.mp h
    rw [List.cons_append, group, ih hbelow]
    simp only [if_pos he, List.cons_append]

/-- A dash opens an item, and the deeper lines below it are its own. -/
theorem group_item {base n : Int} (hn : n ≤ base) {below : List Entry} (hbelow : ∀ e ∈ below, base < e.indent)
    {rest : List Entry} (hrest : (group base rest).pending = []) (t : Text) (o : BodyLine) :
    group base (⟨n, '-' :: t, o⟩ :: (below ++ rest)) =
      { pending := [], items := ⟨n, Text.trim t, o, below⟩ :: (group base rest).items
        reports := (group base rest).reports } := by
  rw [group, group_deeper_append hbelow, hrest]
  simp only [if_neg (Int.not_lt.mpr hn), List.append_nil]

theorem group_layoutItems (hitems : areWritable items = true) {rest : List Entry}
    (hrest : (group d rest).pending = []) (o : BodyLine) :
    group d (entriesAt o (layoutItems d items) ++ rest) =
      { pending := [], items := items.map (itemAt o d) ++ (group d rest).items
        reports := (group d rest).reports } := by
  induction items with
  | nil =>
    rw [← hrest]
    rfl
  | cons v vs ih =>
    obtain ⟨hv, hvs⟩ := areWritable_cons.mp hitems
    obtain ⟨r, hline, hr⟩ := itemLine_eq hv
    have hvs' := ih hvs
    have hlines : entriesAt o (layoutItems d (v :: vs)) ++ rest =
        ⟨d, '-' :: r, o⟩ :: (entriesAt o (layout (d + 2) v) ++ (entriesAt o (layoutItems d vs) ++ rest)) := by
      rw [layoutItems, hline, ← List.append_assoc, ← entriesAt_append]
      rfl
    rw [hlines, group_item (Int.le_refl d) (deeper_layout o d v) (by rw [hvs']), hvs', hr]
    rfl

theorem group_layoutItems_self (d : Int) (hitems : areWritable items = true) (o : BodyLine) :
    group d (entriesAt o (layoutItems d items)) =
      { pending := [], items := items.map (itemAt o d), reports := [] } := by
  have hnil : (group d []).pending = [] := rfl
  have hgroup := group_layoutItems hitems hnil o
  rwa [group, List.append_nil, List.append_nil] at hgroup

/-- The lines below a line and those behind them. -/
theorem below_beyond_append {e : Entry} {xs ys : List Entry} (hxs : ∀ x ∈ xs, e.indent < x.indent)
    (hys : ∀ y ∈ ys.head?, y.indent ≤ e.indent) : e.below (xs ++ ys) = xs ∧ e.beyond (xs ++ ys) = ys := by
  unfold Entry.below Entry.beyond
  rw [List.takeWhile_append_of_pos (by simpa using hxs), List.dropWhile_append_of_pos (by simpa using hxs)]
  cases ys with
  | nil => simp
  | cons y ys =>
    have hy : ¬ e.indent < y.indent := Int.not_lt.mpr (hys y rfl)
    simp [hy]

/-- The reading gives the literal and leaves no line out. -/
def Reads (reading : Sourced × List BlockReport) (v : Literal) : Prop := reading.1.tree = v ∧ reading.2 = []

/-- The same of the entries of an object. -/
def ReadsPairs (reading : List (BodyLine × Text × Sourced) × List BlockReport) (es : List (Text × Literal)) : Prop :=
  Sourced.treeEntries reading.1 = es ∧ reading.2 = []

theorem readItems_eq (is : List Item) :
    Sourced.treeItems (readItems is).1 = is.map (fun i => (readItem i).1.tree) ∧
      (readItems is).2 = is.flatMap fun i => (readItem i).2 := by
  induction is with
  | nil => simp [readItems_nil, Sourced.treeItems]
  | cons i is ih =>
    obtain ⟨htree, hreports⟩ := ih
    rw [readItems_cons]
    simp only [Sourced.treeItems, htree, hreports, List.map_cons, List.flatMap_cons, and_self]

/-- A block that starts with a dash and leaves no line out is the list of its items. -/
theorem readEntries_of_group {e : Entry} {rest : List Entry} {is : List Item} (hdash : e.text.head? = some '-')
    (hgroup : group e.indent (e :: rest) = { pending := [], items := is, reports := [] }) :
    (readEntries (e :: rest)).1.tree = .list (is.map fun i => (readItem i).1.tree) ∧
      (readEntries (e :: rest)).2 = is.flatMap fun i => (readItem i).2 := by
  obtain ⟨htree, hreports⟩ := readItems_eq is
  rw [readEntries_list rest hdash, hgroup]
  simp only [Sourced.tree, htree, hreports, List.nil_append, and_self]

/-- An item that is laid out, given how the block of its value is read. -/
theorem reads_itemAt (o : BodyLine) (d : Int) (hv : v.isWritable = true)
    (hblock : v.isScalar = false → Reads (readEntries (entriesAt o (layout (d + 2) v))) v) :
    Reads (readItem (itemAt o d v)) v := by
  cases hscalar : v.isScalar with
  | true =>
    obtain ⟨s, rfl⟩ := exists_scalar hscalar
    obtain ⟨⟨hne, -⟩, hcolon⟩ := isScalarText_iff.mp hv
    have hread : readItem (itemAt o d (.scalar s)) = (.scalar s, []) := by
      unfold readItem itemAt
      rw [if_neg (by simpa [inline] using hne)]
      simp [inline, hcolon, layout, entriesAt]
    rw [hread]
    exact ⟨rfl, rfl⟩
  | false =>
    have hread : readItem (itemAt o d v) = readEntries (entriesAt o (layout (d + 2) v)) := by
      unfold readItem itemAt
      rw [(inline_eq_nil_iff hv).mpr hscalar]
      rfl
    rw [hread]
    exact hblock hscalar

/-- The items of a list, given how each of them is read. -/
theorem readItems_itemAt (h : ∀ v ∈ items, Reads (readItem (itemAt o d v)) v) :
    (items.map (itemAt o d)).map (fun i => (readItem i).1.tree) = items ∧
      (items.map (itemAt o d)).flatMap (fun i => (readItem i).2) = [] := by
  constructor
  · rw [List.map_map]
    exact (List.map_congr_left fun v hv => (h v hv).1).trans (List.map_id' items)
  · simp only [List.flatMap_map, List.flatMap_eq_nil_iff]
    exact fun v hv => (h v hv).2

theorem reads_list (hitems : areWritable items = true) (hne : items ≠ [])
    (h : ∀ v ∈ items, Reads (readItem (itemAt o d v)) v) :
    Reads (readEntries (entriesAt o (layoutItems d items))) (.list items) := by
  have hgroup := group_layoutItems_self d hitems o
  obtain ⟨htrees, hreports⟩ := readItems_itemAt h
  cases items with
  | nil => exact absurd rfl hne
  | cons v vs =>
    obtain ⟨r, hline, -⟩ := itemLine_eq (areWritable_cons.mp hitems).1
    obtain ⟨rest, hlines⟩ : ∃ rest, entriesAt o (layoutItems d (v :: vs)) = ⟨d, '-' :: r, o⟩ :: rest := by
      rw [layoutItems, hline]
      exact ⟨_, rfl⟩
    rw [hlines] at hgroup ⊢
    obtain ⟨htree, hreport⟩ := readEntries_of_group rfl hgroup
    rw [htrees] at htree
    exact ⟨htree, hreport.trans hreports⟩

/-- The entries of an object, given how they are read. -/
theorem reads_object (hes : haveWritable es = true) (hne : es ≠ [])
    (h : ReadsPairs (readPairs (entriesAt o (layoutEntries d es))) es) :
    Reads (readEntries (entriesAt o (layoutEntries d es))) (.object es) := by
  cases es with
  | nil => exact absurd rfl hne
  | cons e es =>
    obtain ⟨k, v⟩ := e
    obtain ⟨⟨hk, hv⟩, -⟩ := haveWritable_cons.mp hes
    obtain ⟨hhead, -⟩ := entry_parts (e := ⟨d, entryLine k v, o⟩) hk hv rfl
    obtain ⟨rest, hlines⟩ : ∃ rest, entriesAt o (layoutEntries d ((k, v) :: es)) = ⟨d, entryLine k v, o⟩ :: rest :=
      ⟨_, rfl⟩
    obtain ⟨htree, hreports⟩ := h
    rw [hlines] at htree hreports ⊢
    rw [readEntries_object rest hhead]
    exact ⟨by simp only [Sourced.tree, htree], hreports⟩

/-- One more entry of an object, given how the block of its value is read. -/
theorem reads_entry_cons (hk : isKeyText k = true) (hv : v.isWritable = true)
    (hblock : v.isScalar = false → Reads (readEntries (entriesAt o (layout (d + 2) v))) v)
    (hes : ReadsPairs (readPairs (entriesAt o (layoutEntries d es))) es) :
    ReadsPairs (readPairs (entriesAt o (layoutEntries d ((k, v) :: es)))) ((k, v) :: es) := by
  have hlines : entriesAt o (layoutEntries d ((k, v) :: es)) =
      ⟨d, entryLine k v, o⟩ :: (entriesAt o (layout (d + 2) v) ++ entriesAt o (layoutEntries d es)) := by
    rw [layoutEntries, ← entriesAt_append]
    rfl
  obtain ⟨-, hpair, hkey, hvalue⟩ := entry_parts (e := ⟨d, entryLine k v, o⟩) hk hv rfl
  have hnext : ∀ y ∈ (entriesAt o (layoutEntries d es)).head?, y.indent ≤ d :=
    fun y hy => Int.le_of_eq (head_entriesAt (layoutEntries_head d es) y hy)
  obtain ⟨hbelow, hbeyond⟩ := below_beyond_append (e := ⟨d, entryLine k v, o⟩) (deeper_layout o d v) hnext
  rw [hlines]
  cases hscalar : v.isScalar with
  | true =>
    -- the value is on the line of its key
    obtain ⟨s, rfl⟩ := exists_scalar hscalar
    have hne : s ≠ [] := (isScalarText_iff.mp hv).1.1
    rw [readPairs_scalar _ hpair (by rwa [hvalue]), hbelow, hbeyond, hkey, hvalue]
    exact ⟨by simp only [Sourced.treeEntries, hes.1]; rfl, hes.2⟩
  | false =>
    -- the line ends with the colon, and the value is the block below
    have hnil : Entry.value ⟨d, entryLine k v, o⟩ = [] := hvalue.trans ((inline_eq_nil_iff hv).mpr hscalar)
    obtain ⟨htree, hreports⟩ := hblock hscalar
    rw [readPairs_nest _ hpair hnil, hbelow, hbeyond, hkey]
    exact ⟨by simp only [Sourced.treeEntries, htree, hes.1], by rw [hreports, hes.2]; rfl⟩

-- The induction is on the literal: what stands on one line, and then the lines below it.
mutual

/-- **A literal that is laid out** is read as itself. -/
theorem reads_layout (o : BodyLine) (d : Int) : ∀ v : Literal, v.isWritable = true → v.isScalar = false →
    Reads (readEntries (entriesAt o (layout d v))) v
  | .scalar _, _, hscalar => by cases hscalar
  | .list items, hv, _ => by
    obtain ⟨hne, hitems⟩ : items ≠ [] ∧ areWritable items = true := by simpa [isWritable] using hv
    exact reads_list hitems hne (reads_items o d items hitems)
  | .object es, hv, _ => by
    obtain ⟨hne, hes⟩ : es ≠ [] ∧ haveWritable es = true := by simpa [isWritable] using hv
    exact reads_object hes hne (reads_entries o d es hes)

theorem reads_items (o : BodyLine) (d : Int) : ∀ vs : List Literal, areWritable vs = true →
    ∀ v ∈ vs, Reads (readItem (itemAt o d v)) v
  | [], _ => by simp
  | v :: vs, h => by
    obtain ⟨hv, hvs⟩ := areWritable_cons.mp h
    exact List.forall_mem_cons.mpr ⟨reads_itemAt o d hv (reads_layout o (d + 2) v hv), reads_items o d vs hvs⟩

theorem reads_entries (o : BodyLine) (d : Int) : ∀ es : List (Text × Literal), haveWritable es = true →
    ReadsPairs (readPairs (entriesAt o (layoutEntries d es))) es
  | [], _ => ⟨by rw [layoutEntries, entriesAt, List.map_nil, readPairs_nil]; rfl,
      by rw [layoutEntries, entriesAt, List.map_nil, readPairs_nil]⟩
  | (k, v) :: es, h => by
    obtain ⟨⟨hk, hv⟩, hes⟩ := haveWritable_cons.mp h
    exact reads_entry_cons hk hv (reads_layout o (d + 2) v hv) (reads_entries o d es hes)

end

/-! ### Lines of a body -/

mutual

theorem isCode_layout (d : Int) : ∀ v : Literal, v.isWritable = true → ∀ l ∈ layout d v, IsCode l.2
  | .scalar _, _ => by simp [layout]
  | .list items, hv => isCode_layoutItems d items (Bool.and_eq_true_iff.mp hv).2
  | .object es, hv => isCode_layoutEntries d es (Bool.and_eq_true_iff.mp hv).2

theorem isCode_layoutItems (d : Int) : ∀ vs : List Literal, areWritable vs = true → ∀ l ∈ layoutItems d vs, IsCode l.2
  | [], _ => by simp [layoutItems]
  | v :: vs, h => by
    obtain ⟨hv, hvs⟩ := areWritable_cons.mp h
    have hblock := isCode_layout (d + 2) v hv
    have hrest := isCode_layoutItems d vs hvs
    simp only [layoutItems, List.forall_mem_cons, List.forall_mem_append]
    exact ⟨isCode_itemLine hv, hblock, hrest⟩

theorem isCode_layoutEntries (d : Int) :
    ∀ es : List (Text × Literal), haveWritable es = true → ∀ l ∈ layoutEntries d es, IsCode l.2
  | [], _ => by simp [layoutEntries]
  | (k, v) :: es, h => by
    obtain ⟨⟨hk, hv⟩, hes⟩ := haveWritable_cons.mp h
    have hblock := isCode_layout (d + 2) v hv
    have hrest := isCode_layoutEntries d es hes
    simp only [layoutEntries, List.forall_mem_cons, List.forall_mem_append]
    exact ⟨isCode_entryLine hk hv, hblock, hrest⟩

end

/-- Lines without comments all take part in the block. -/
theorem blockEntries_of_isCode {ls : List BodyLine} (h : ∀ l ∈ ls, IsCode l.text) :
    blockEntries ls = ls.map fun l => ⟨l.indent, l.text, l⟩ := by
  unfold blockEntries
  rw [← List.filterMap_eq_map]
  refine List.filterMap_congr fun l hl => ?_
  have hcode : l.code = l.text := (h l hl).2
  have hcomment : l.isComment = false := decide_eq_false (h l hl).head_ne
  have hne : l.text ≠ [] := (h l hl).1
  simp [hcode, hcomment, hne]

/-- Reading lines depends on their indents and texts only. -/
theorem readBlock_of_written {ls : List BodyLine} {lines : List (Int × Text)} (h : Written ls lines)
    (hcode : ∀ l ∈ lines, IsCode l.2) (o : BodyLine) :
    (readBlock ls).1.tree = (readEntries (entriesAt o lines)).1.tree ∧
      ((readBlock ls).2 = [] ↔ (readEntries (entriesAt o lines)).2 = []) := by
  obtain rfl := h
  have hls : ∀ l ∈ ls, IsCode l.text := fun l hl => hcode _ (List.mem_map_of_mem hl)
  have hlike : List.Forall₂ (Entry.Like Eq fun _ _ => True) (blockEntries ls)
      (entriesAt o (ls.map fun l => (l.indent, l.text))) := by
    rw [blockEntries_of_isCode hls, entriesAt, List.map_map, List.forall₂_map_left_iff, List.forall₂_map_right_iff,
      List.forall₂_same]
    exact fun l _ => ⟨rfl, rfl, trivial⟩
  have hagree := read_like.1 _ Eq _ (fun ha hb => by rw [ha, hb]) hlike
  refine ⟨hagree.tree, ?_⟩
  rw [← List.length_eq_zero_iff, ← List.length_eq_zero_iff, readBlock, hagree.reports.length_eq]

theorem reads_of_written {ls : List BodyLine} {lines : List (Int × Text)} (h : Written ls lines)
    (hcode : ∀ l ∈ lines, IsCode l.2) (hread : ∀ o, Reads (readEntries (entriesAt o lines)) v) :
    Reads (readBlock ls) v := by
  obtain ⟨htree, hreports⟩ := readBlock_of_written h hcode ⟨0, 0, []⟩
  exact ⟨htree.trans (hread _).1, hreports.mpr (hread _).2⟩

/-- **Literal blocks round-trip.**  A list or an object that is laid out at any indent is read as itself, and no line is
left out. -/
theorem readBlock_layout (d : Int) (v : Literal) (hv : v.isWritable = true) (hblock : v.isScalar = false)
    (ls : List BodyLine) (hls : Written ls (layout d v)) : (readBlock ls).1.tree = v ∧ (readBlock ls).2 = [] :=
  reads_of_written hls (isCode_layout d v hv) fun o => reads_layout o d v hv hblock

/-- Scalars that look like items, and colons and comment signs in quotes. -/
theorem readBlock_layout_quotes :
    let v : Literal :=
      .list [.scalar "- x", .object [("url", .scalar "\"http://x # 1\""), ("tags", .list [.scalar "it's"])]]
    let ls : List BodyLine := [⟨1, 3, "   - - x"⟩, ⟨2, 3, "   -"⟩, ⟨3, 5, "     url: \"http://x # 1\""⟩,
      ⟨4, 5, "     tags:"⟩, ⟨5, 7, "       - it's"⟩]
    v.isWritable = true ∧ v.isScalar = false ∧ Written ls (layout 3 v) ∧ (readBlock ls).1.tree = v ∧
      (readBlock ls).2 = [] := by
  intro v ls
  have hv : v.isWritable = true := by decide
  have hls : Written ls (layout 3 v) := by unfold Written; decide
  exact ⟨hv, rfl, hls, readBlock_layout 3 v hv rfl ls hls⟩

end Literal

end Trellis
