import Trellis.Line
import Trellis.Literal.Basic
import Trellis.Value

/-!
# Literal blocks

A block of lines describes a literal by indentation. A block whose first line starts with `-` is a list: each
line at or above that indentation that starts with `-` opens an item, deeper lines belong to the item before
them. Any other block is an object: each line is `key: value`, split at the first colon outside quotes, and
deeper lines belong to the key before them. `- key: value` opens an object inside an item.

A line that fits nowhere is reported and left out. The result remembers the line each item and entry came
from (`Sourced`); `Sourced.tree` forgets it.
-/

namespace Trellis.Literal

/-- Why a line of a block is left out. -/
inductive BlockFault where
  | notAnItem
  | afterScalar
  | notAPair
  | underKey (key : Text)
  deriving DecidableEq, Repr

def BlockFault.message : BlockFault → Text
  | .notAnItem => "expected a '- item' line in list block"
  | .afterScalar => "unexpected indented line after scalar list item"
  | .notAPair => "expected 'key: value' in object block"
  | .underKey key => "unexpected indented line under '" ++ key ++ "'"

/-- A line that is left out. -/
structure BlockReport where
  fault : BlockFault
  origin : BodyLine
  deriving DecidableEq, Repr

/-- A line of a block: where it counts as indented, its text without comment, and the line it came from. -/
structure Entry where
  indent : Int
  text : Text
  origin : BodyLine
  deriving DecidableEq, Repr

/-- A list item: the text after its dash and the deeper lines below it. -/
structure Item where
  indent : Int
  content : Text
  origin : BodyLine
  below : List Entry
  deriving DecidableEq, Repr

/-- A literal in which every item and entry remembers its line. -/
inductive Sourced where
  | scalar (text : Text)
  | list (items : List (BodyLine × Sourced))
  | object (entries : List (BodyLine × Text × Sourced))
  deriving Repr

mutual

/-- The literal without the origins. -/
def Sourced.tree : Sourced → Literal
  | .scalar t => .scalar t
  | .list items => .list (Sourced.treeItems items)
  | .object entries => .object (Sourced.treeEntries entries)

/-- The items of a list without the origins. -/
def Sourced.treeItems : List (BodyLine × Sourced) → List Literal
  | [] => []
  | (_, s) :: r => s.tree :: Sourced.treeItems r

/-- The entries of an object without the origins. -/
def Sourced.treeEntries : List (BodyLine × Text × Sourced) → List (Text × Literal)
  | [] => []
  | (_, k, s) :: r => (k, s.tree) :: Sourced.treeEntries r

end

/-- What grouping the lines of a list gives: the lines that belong to an item further up, the items, and the
lines left out. -/
structure Grouping where
  pending : List Entry := []
  items : List Item := []
  reports : List BlockReport := []

/-- Groups the lines of a list whose items stand at `base`. A deeper line joins the nearest item above it,
also across a line that is left out. -/
def group (base : Int) : List Entry → Grouping
  | [] => {}
  | e :: es =>
    let g := group base es
    if base < e.indent then { g with pending := e :: g.pending }
    else match e.text with
      | '-' :: t => { g with pending := [], items := ⟨e.indent, Text.trim t, e.origin, g.pending⟩ :: g.items }
      | _ => { g with reports := ⟨.notAnItem, e.origin⟩ :: g.reports }

/-- The size of a block: every line counts one more than its characters. -/
def weight : List Entry → Nat
  | [] => 0
  | e :: es => e.text.length + 1 + weight es

/-- The size of some items: every item counts two more than its characters and its lines. -/
def itemsWeight : List Item → Nat
  | [] => 0
  | i :: is => i.content.length + 2 + weight i.below + itemsWeight is

theorem trim_length_le (t : Text) : (Text.trim t).length ≤ t.length := by
  have hEnd : ∀ s : Text, (Text.trimEnd s).length ≤ s.length := by
    intro s
    induction s with
    | nil => simp [Text.trimEnd]
    | cons c s ih =>
      simp only [Text.trimEnd]
      split
      · split <;> simp
      · simpa using ih
  exact Nat.le_trans (hEnd _) (List.dropWhile_sublist _).length_le

theorem group_weight (base : Int) (es : List Entry) :
    weight (group base es).pending + itemsWeight (group base es).items ≤ weight es := by
  induction es with
  | nil => simp [group, weight, itemsWeight]
  | cons e es ih =>
    simp only [group]
    split
    · simp only [weight]; omega
    · split
      · rename_i t ht
        have := trim_length_le t
        simp only [weight, itemsWeight, ht, List.length_cons]
        omega
      · simp only [weight]; omega

theorem weight_takeWhile_le (p : Entry → Bool) (es : List Entry) : weight (es.takeWhile p) ≤ weight es := by
  induction es with
  | nil => simp [weight]
  | cons e es ih => simp only [List.takeWhile_cons]; split <;> simp only [weight] <;> omega

theorem weight_dropWhile_le (p : Entry → Bool) (es : List Entry) : weight (es.dropWhile p) ≤ weight es := by
  induction es with
  | nil => simp [weight]
  | cons e es ih => simp only [List.dropWhile_cons]; split <;> simp only [weight] <;> omega

/-- The least indentation of some lines, or `default` when there are none. -/
def leastIndent (default : Int) : List Entry → Int
  | [] => default
  | e :: es => es.foldl (fun m x => min m x.indent) e.indent

mutual

def readEntries (es : List Entry) : Sourced × List BlockReport :=
  match es with
  | [] => (.scalar "null", [])
  | e :: es' =>
    if e.text.head? = some '-' then
      let g := group e.indent (e :: es')
      let (items, reports) := readItems g.items
      (.list items, g.reports ++ reports)
    else
      let (entries, reports) := readPairs (e :: es')
      (.object entries, reports)
termination_by 3 * weight es + 2
decreasing_by
  · have := group_weight e.indent (e :: es')
    omega
  · omega

/-- Reads the items of a list, in order. A head that holds a colon outside quotes is the first line of an
object whose further keys line up below it. -/
def readItems (items : List Item) : List (BodyLine × Sourced) × List BlockReport :=
  match items with
  | [] => ([], [])
  | i :: is =>
    let (value, reports) : Sourced × List BlockReport :=
      if i.content.isEmpty then readEntries i.below
      else if (findUnquoted ':' i.content).isNone then
        (.scalar i.content, i.below.map fun e => ⟨.afterScalar, e.origin⟩)
      else readEntries (⟨leastIndent (i.indent + 2) i.below, i.content, i.origin⟩ :: i.below)
    let (values, more) := readItems is
    ((i.origin, value) :: values, reports ++ more)
termination_by 3 * itemsWeight items + 1
decreasing_by all_goals simp only [itemsWeight, weight]; omega

/-- Reads the entries of an object, in order. -/
def readPairs (es : List Entry) : List (BodyLine × Text × Sourced) × List BlockReport :=
  match es with
  | [] => ([], [])
  | e :: es' =>
    let below := es'.takeWhile fun x => e.indent < x.indent
    let (entries, more) := readPairs (es'.dropWhile fun x => e.indent < x.indent)
    let colon := findUnquoted ':' e.text
    let key := match colon with
      | some i => Text.trim (e.text.take i)
      | none => []
    if e.text.head? = some '-' || key.isEmpty then (entries, ⟨.notAPair, e.origin⟩ :: more)
    else
      let value := Text.trim (e.text.drop (colon.getD 0 + 1))
      if value.isEmpty then
        let (nested, reports) := readEntries below
        ((e.origin, Value.unquote key, nested) :: entries, reports ++ more)
      else
        ((e.origin, Value.unquote key, .scalar value) :: entries,
          below.map (fun x => ⟨.underKey key, x.origin⟩) ++ more)
termination_by 3 * weight es + 1
decreasing_by
  · have := weight_dropWhile_le (fun x => e.indent < x.indent) es'
    simp only [weight]; omega
  · have := weight_takeWhile_le (fun x => e.indent < x.indent) es'
    simp only [weight]; omega

end

/-- The lines of a body that take part in a block: neither comments nor empty. -/
def blockEntries (lines : List BodyLine) : List Entry :=
  lines.filterMap fun l =>
    if l.isComment || l.code.isEmpty then none else some ⟨l.indent, l.code, l⟩

/-- Reads the literal that body lines describe. -/
def readBlock (lines : List BodyLine) : Sourced × List BlockReport := readEntries (blockEntries lines)

end Trellis.Literal
