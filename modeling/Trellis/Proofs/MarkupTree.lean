import Mathlib.Data.List.Forall2
import Mathlib.Data.List.Induction
import Trellis.Proofs.Outline
import Trellis.Proofs.Tokens

/-!
# The tree that the indentation describes

The nodes of a document are, in pre-order, the lines that open a markup node, and the parent of a node is the one of
the latest line before it that encloses it.  A line encloses a later one when every line behind it, up to and with the
later one, is deeper; comments do not count.

The proof follows the tokens from left to right with the invariant `Follows`: the open nodes are the lines that would
enclose the next deep line, and every entry of the outline stands where the indentation says.
-/

namespace Trellis.Document

/-- The line opens a markup node: after it, the innermost open node is the one of the line. -/
def Reading.opensNode (filename : Option Text) (t : LineToken) (r : Reading) : Bool :=
  (r.step filename t).stack.head?.map (·.location) = some (Reading.locate filename t)

/-- The lines that open a markup node, in order, when `r` has been read before them. -/
def markupLinesFrom (filename : Option Text) (r : Reading) : List LineToken → List LineToken
  | [] => []
  | t :: ts => (if r.opensNode filename t then [t] else []) ++ markupLinesFrom filename (r.step filename t) ts

/-- The lines that open a markup node, in order. -/
def markupLines (filename : Option Text) (ts : List LineToken) : List LineToken := markupLinesFrom filename {} ts

/-- Every line behind `m` up to `n` is deeper than `m`, comments apart. -/
def Encloses (ts : List LineToken) (m n : LineToken) : Prop :=
  m.line < n.line ∧ ∀ u ∈ ts, u.kind ≠ .comment → m.line < u.line → u.line ≤ n.line → m.indent < u.indent

/-- Every line behind `m` is deeper than `m`, comments apart. -/
def StaysOpen (ts : List LineToken) (m : LineToken) : Prop :=
  ∀ u ∈ ts, u.kind ≠ .comment → m.line < u.line → m.indent < u.indent

instance (ts : List LineToken) (m n : LineToken) : Decidable (Encloses ts m n) := inferInstanceAs (Decidable (_ ∧ _))

instance (ts : List LineToken) (m : LineToken) : Decidable (StaysOpen ts m) := inferInstanceAs (Decidable (∀ _ ∈ _, _))

/-- The latest markup line that encloses `n`. -/
def enclosing (filename : Option Text) (ts : List LineToken) (n : LineToken) : Option LineToken :=
  ((markupLines filename ts).filter (Encloses ts · n)).getLast?

/-- The entry is of the line `n` and stands below the line that encloses it. -/
structure Stands (filename : Option Text) (ts : List LineToken) (e : OutlineEntry) (n : LineToken) : Prop where
  mem : n ∈ ts
  location : e.location = Reading.locate filename n
  opens : e.head.Opens n
  parent : e.parent = (enclosing filename ts n).map (Reading.locate filename)

variable {filename : Option Text} {ts : List LineToken} {t m n : LineToken}

/-! ### One more line -/

theorem markupLinesFrom_append (r : Reading) (ts us : List LineToken) :
    markupLinesFrom filename r (ts ++ us) =
      markupLinesFrom filename r ts ++ markupLinesFrom filename (ts.foldl (Reading.step filename) r) us := by
  induction ts generalizing r with
  | nil => rfl
  | cons t ts ih =>
    rw [List.cons_append, markupLinesFrom, ih, markupLinesFrom, List.append_assoc]
    rfl

theorem markupLines_concat (ts : List LineToken) (t : LineToken) :
    markupLines filename (ts ++ [t]) =
      markupLines filename ts ++ if (Reading.run filename ts).opensNode filename t then [t] else [] := by
  unfold markupLines
  rw [markupLinesFrom_append]
  exact congrArg _ (List.append_nil _)

theorem markupLinesFrom_sublist (r : Reading) (ts : List LineToken) :
    (markupLinesFrom filename r ts).Sublist ts := by
  induction ts generalizing r with
  | nil => exact .slnil
  | cons u us ih =>
    unfold markupLinesFrom
    split
    · exact (ih _).cons_cons u
    · exact (ih _).cons u

theorem markupLines_sublist (ts : List LineToken) : (markupLines filename ts).Sublist ts :=
  markupLinesFrom_sublist _ ts

theorem staysOpen_concat (hm : m.line < t.line) :
    StaysOpen (ts ++ [t]) m ↔ StaysOpen ts m ∧ (t.kind = .comment ∨ m.indent < t.indent) := by
  unfold StaysOpen
  rw [List.forall_mem_append, List.forall_mem_singleton]
  refine and_congr_right fun _ => ?_
  by_cases hk : t.kind = .comment <;> simp [hk, hm]

theorem staysOpen_last (h : ∀ u ∈ ts, u.line < t.line) : StaysOpen (ts ++ [t]) t := by
  refine List.forall_mem_append.mpr ⟨fun u hu _ hlt => ?_, List.forall_mem_singleton.mpr fun _ hlt => ?_⟩
  · have := h u hu
    omega
  · omega

theorem encloses_concat (hn : n.line < t.line) : Encloses (ts ++ [t]) m n ↔ Encloses ts m n := by
  unfold Encloses
  rw [List.forall_mem_append, List.forall_mem_singleton]
  refine and_congr_right fun _ => ⟨fun h => h.1, fun h => ⟨h, fun _ _ hle => ?_⟩⟩
  omega

theorem encloses_last (h : ∀ u ∈ ts, u.line < t.line) (hk : t.kind ≠ .comment) (hm : m ∈ ts) :
    Encloses (ts ++ [t]) m t ↔ StaysOpen ts m ∧ m.indent < t.indent := by
  have hlt := h m hm
  unfold Encloses StaysOpen
  rw [List.forall_mem_append, List.forall_mem_singleton]
  constructor
  · rintro ⟨-, hall, hlast⟩
    exact ⟨fun u hu hku hmu => hall u hu hku hmu (Nat.le_of_lt (h u hu)), hlast hk hlt (Nat.le_refl _)⟩
  · rintro ⟨hall, hlast⟩
    exact ⟨hlt, fun u hu hku hmu _ => hall u hu hku hmu, fun _ _ _ => hlast⟩

/-- A last line that does not enclose `n` is not looked at. -/
theorem enclosing_of_not_encloses (h : ¬ Encloses (ts ++ [t]) t n) :
    enclosing filename (ts ++ [t]) n = ((markupLines filename ts).filter (Encloses (ts ++ [t]) · n)).getLast? := by
  unfold enclosing
  have hnew : (if (Reading.run filename ts).opensNode filename t then [t] else []).filter
      (Encloses (ts ++ [t]) · n) = [] := by
    split <;> simp [h]
  rw [markupLines_concat, List.filter_append, hnew, List.append_nil]

/-- A later line encloses nothing before it. -/
theorem enclosing_concat (h : ∀ u ∈ ts, u.line < t.line) (hn : n ∈ ts) :
    enclosing filename (ts ++ [t]) n = enclosing filename ts n := by
  have hlt := h n hn
  rw [enclosing_of_not_encloses fun he => Nat.lt_asymm hlt he.1]
  refine congrArg List.getLast? (List.filter_congr fun m _ => ?_)
  simp only [encloses_concat hlt]

/-! ### The invariant -/

/-- The places of the markup lines that stay open, innermost first. -/
def openPlaces (filename : Option Text) (ts : List LineToken) : List (Nat × Location) :=
  ((markupLines filename ts).filter (StaysOpen ts ·)).reverse.map fun m => (m.indent, Reading.locate filename m)

/-- What has been read follows the indentation of the lines. -/
structure Follows (filename : Option Text) (ts : List LineToken) : Prop where
  shaped : (Reading.run filename ts).Shaped
  places : (Reading.run filename ts).places = openPlaces filename ts
  entries : List.Forall₂ (Stands filename ts) (Reading.run filename ts).outline (markupLines filename ts)

theorem kept_eq (h : Follows filename ts) (hline : ∀ u ∈ ts, u.line < t.line) :
    (Reading.run filename ts).kept t =
      ((markupLines filename ts).filter (StaysOpen (ts ++ [t]) ·)).reverse.map
        fun m => (m.indent, Reading.locate filename m) := by
  unfold Reading.kept
  rw [h.places, openPlaces, List.filter_map, List.filter_reverse, List.filter_filter]
  refine congrArg (fun l => List.map _ (List.reverse l)) (List.filter_congr fun m hm => ?_)
  have hm := hline m ((markupLines_sublist _).mem hm)
  simp [staysOpen_concat hm, and_comm]

/-- A line that opens no node is told apart from one that does: no open node is at a line that was not read yet. -/
theorem not_opensNode (h : Follows filename ts) (hline : ∀ u ∈ ts, u.line < t.line)
    (hp : ((Reading.run filename ts).step filename t).places = (Reading.run filename ts).kept t) :
    (Reading.run filename ts).opensNode filename t = false := by
  refine decide_eq_false fun htop => ?_
  obtain ⟨f, hf, hloc⟩ := Option.map_eq_some_iff.mp htop
  have hmem : f.place ∈ (Reading.run filename ts).kept t := by
    rw [← hp]
    exact List.mem_map_of_mem (List.mem_of_mem_head? hf)
  rw [kept_eq h hline] at hmem
  obtain ⟨m, hm, hplace⟩ := List.mem_map.mp hmem
  have hm := hline m ((markupLines_sublist _).mem (List.mem_filter.mp (List.mem_reverse.mp hm)).1)
  have hsame : Reading.locate filename m = Reading.locate filename t := (congrArg Prod.snd hplace).trans hloc
  have : (m.line : Int) = t.line := congrArg Location.line hsame
  omega

theorem opensNode_of_grows {head : Head} {r : Reading} (h : Reading.Grows filename t head r (r.step filename t)) :
    r.opensNode filename t = true := by
  refine decide_eq_true ?_
  have hhead : (r.step filename t).places.head? = some (t.indent, Reading.locate filename t) := by rw [h.places]; rfl
  rw [Reading.places, List.head?_map] at hhead
  obtain ⟨f, hf, hplace⟩ := Option.map_eq_some_iff.mp hhead
  rw [hf]
  exact congrArg (some ·.2) hplace

/-- The latest line that encloses the last one: the innermost of those that stay open. -/
theorem enclosing_last (h : ∀ u ∈ ts, u.line < t.line) (hk : t.kind ≠ .comment) :
    enclosing filename (ts ++ [t]) t = ((markupLines filename ts).filter (StaysOpen (ts ++ [t]) ·)).getLast? := by
  rw [enclosing_of_not_encloses fun he => Nat.lt_irrefl _ he.1]
  refine congrArg List.getLast? (List.filter_congr fun m hm => ?_)
  have hm := (markupLines_sublist _).mem hm
  simp [encloses_last h hk hm, staysOpen_concat (h m hm), hk]

theorem follows_nil (filename : Option Text) : Follows filename [] := ⟨Reading.shaped_nil, rfl, .nil⟩

/-- One more line keeps the invariant. -/
theorem follows_concat (h : Follows filename ts) (hline : ∀ u ∈ ts, u.line < t.line) :
    Follows filename (ts ++ [t]) := by
  have hold : List.Forall₂ (Stands filename (ts ++ [t])) (Reading.run filename ts).outline
      (markupLines filename ts) := by
    refine h.entries.imp fun e n he => ⟨List.mem_append_left _ he.mem, he.location, he.opens, ?_⟩
    rw [enclosing_concat hline he.mem]
    exact he.parent
  have hrun := Reading.run_concat filename ts t
  obtain ⟨hshape, ⟨hout, hp⟩ | ⟨head, hg⟩⟩ := Reading.step_outline filename t h.shaped
  · -- the line opens no node
    have hlines : markupLines filename (ts ++ [t]) = markupLines filename ts := by
      rw [markupLines_concat, if_neg (Bool.not_eq_true _ |>.mpr (not_opensNode h hline hp)), List.append_nil]
    refine ⟨hrun ▸ hshape, ?_, ?_⟩
    · rw [hrun, hp, kept_eq h hline, openPlaces, hlines]
    · rw [hrun, hout, hlines]
      exact hold
  · -- the line opens a node, below the latest line that encloses it
    have hlines : markupLines filename (ts ++ [t]) = markupLines filename ts ++ [t] := by
      rw [markupLines_concat, if_pos (opensNode_of_grows hg)]
    refine ⟨hrun ▸ hshape, ?_, ?_⟩
    · rw [hrun, hg.places, kept_eq h hline, openPlaces, hlines, List.filter_append]
      simp [staysOpen_last hline]
    · rw [hrun, hg.outline, hlines]
      refine List.rel_append hold (.cons ⟨?_, rfl, Head.opens_bare hg.opens, ?_⟩ .nil)
      · exact List.mem_append_right _ List.mem_cons_self
      · rw [kept_eq h hline, enclosing_last hline (Head.kind_ne_comment hg.opens)]
        simp only [List.head?_map, List.head?_reverse, Option.map_map]
        rfl

/-- Every reading of lines with increasing numbers follows their indentation. -/
theorem follows_run (filename : Option Text) (h : ts.Pairwise fun a b => a.line < b.line) : Follows filename ts := by
  induction ts using List.reverseRecOn with
  | nil => exact follows_nil filename
  | append_singleton ts t ih =>
    obtain ⟨hts, -, hcross⟩ := List.pairwise_append.mp h
    exact follows_concat (ih hts) fun u hu => hcross u hu t List.mem_cons_self

/-! ### The finished tree -/

/-- Finishing closes every open node. -/
theorem outlineAll_finish {r : Reading} (h : r.Shaped) :
    Node.outlineAll none (r.finish filename).roots = r.outline := by
  obtain ⟨hclosed, -, hout⟩ := Reading.closeCapture_spec filename h
  obtain ⟨hs, hr⟩ := Reading.closeServer_markup (r.closeCapture filename)
  obtain ⟨-, hp, ho⟩ := closeFrames_spec 0 (r.closeCapture filename).roots hclosed.nested
  have hnil : (Reading.closeFrames 0 (r.closeCapture filename).stack (r.closeCapture filename).roots).1 = [] := by
    have : (((r.closeCapture filename).stack.map Frame.place).filter (·.1 < 0)) = [] := by simp
    exact List.map_eq_nil_iff.mp (hp.trans this)
  rw [hnil] at ho
  rw [← hout]
  show Node.outlineAll none (Reading.closeFrames 0 (r.closeCapture filename).closeServer.stack
    (r.closeCapture filename).closeServer.roots).2 = _
  rw [hs, hr]
  exact ho

/-- **The tree follows the indentation.**  The nodes of a document in pre-order are the lines that open a markup node,
by increasing line numbers; every node is of its line, and its parent is the node of the latest line that encloses it.
At any time the indents of the open nodes strictly increase inwards from that of the root, and of them a next line
leaves open only those that are less deep than it. -/
theorem read_follows_indentation (filename : Option Text) (source : Text) :
    (Node.preorderAll 1 (read filename source).children).map (·.1.location) =
        (markupLines filename (LineToken.tokenize source)).map (Reading.locate filename) ∧
      ((markupLines filename (LineToken.tokenize source)).Pairwise fun m n => m.line < n.line) ∧
      List.Forall₂ (Stands filename (LineToken.tokenize source))
        (Node.outlineAll none (read filename source).children)
        (markupLines filename (LineToken.tokenize source)) ∧
      ∀ before after, LineToken.tokenize source = before ++ after →
        (((Reading.run filename before).stack.map fun f : Frame => (f.indent : Int)) ++ [-1]).Pairwise (· > ·) ∧
        ∀ t : LineToken, t.kind ≠ .comment →
          ∀ f ∈ ((Reading.run filename before).settle filename t).stack, f.indent < t.indent := by
  have hlines := LineToken.pairwise_tokenize source
  have h := follows_run filename hlines
  have hentries : List.Forall₂ (Stands filename (LineToken.tokenize source))
      (Node.outlineAll none (read filename source).children)
      (markupLines filename (LineToken.tokenize source)) := by
    rw [show (read filename source).children = ((Reading.run filename (LineToken.tokenize source)).finish filename).roots
      from rfl, outlineAll_finish h.shaped]
    exact h.entries
  refine ⟨?_, hlines.sublist (markupLines_sublist _), hentries, fun before after hsplit => ?_⟩
  · have hlocations := hentries.imp (S := fun e n => e.location = Reading.locate filename n) fun _ _ h => h.location
    rw [← List.forall₂_map_right_iff, ← List.forall₂_map_left_iff, List.forall₂_eq_eq_eq] at hlocations
    rw [← Node.outlineAll_locations none]
    exact hlocations
  · -- the lines before any point of the source follow the indentation as well
    rw [hsplit] at hlines
    have hb := follows_run filename (List.pairwise_append.mp hlines).1
    constructor
    · refine List.pairwise_append.mpr ⟨List.pairwise_map.mpr (hb.shaped.nested.increasing.imp fun h => ?_), ?_, ?_⟩
      · omega
      · exact List.pairwise_singleton _ _
      · intro i hi j hj
        obtain ⟨f, -, rfl⟩ := List.mem_map.mp hi
        obtain rfl := List.mem_singleton.mp hj
        omega
    · intro t hk f hf
      obtain ⟨-, hp, -⟩ := Reading.settle_spec filename hb.shaped hk
      have hmem : f.place ∈ ((Reading.run filename before).settle filename t).places := List.mem_map_of_mem hf
      rw [hp, Reading.kept_of_line hk] at hmem
      exact of_decide_eq_true (List.mem_filter.mp hmem).2

end Trellis.Document
