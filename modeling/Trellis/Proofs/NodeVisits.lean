import Trellis.Proofs.Placement

/-!
# Nodes in their places

`visitsAll` lists the nodes of a forest in pre-order, each with the nodes it is in, innermost first.  These are all of
its proper ancestors, so what is said of the ancestors of a node can be said of its visit; their number is the depth of
the node (`preorderAll_eq_visitsAll`).
-/

namespace Trellis.Node

/-! ### Induction over forests -/

mutual

theorem children_induction {Q : List Node → Prop} (nil : Q [])
    (cons : ∀ n ns, Q n.children → Q ns → Q (n :: ns)) : ∀ n : Node, Q n.children
  | .element _ _ _ cs _ => forest_induction nil cons cs
  | .pseudo _ _ _ => nil
  | .condition _ cs _ => forest_induction nil cons cs
  | .loop _ _ _ _ cs _ => forest_induction nil cons cs

/-- What holds of a forest whenever it holds of the children of its first node and of the rest holds of every forest. -/
@[elab_as_elim]
theorem forest_induction {Q : List Node → Prop} (nil : Q [])
    (cons : ∀ n ns, Q n.children → Q ns → Q (n :: ns)) : ∀ ns : List Node, Q ns
  | [] => nil
  | n :: ns => cons n ns (children_induction nil cons n) (forest_induction nil cons ns)

end

/-! ### Visits -/

/-- A node in its place: the nodes that it is in, innermost first, and the node. -/
structure Visit where
  above : List Node
  node : Node

mutual

/-- The visits of a node and of the nodes below it, in pre-order, when the node is in `above`. -/
def visits (above : List Node) : Node → List Visit
  | .element kind tag ps cs l => ⟨above, .element kind tag ps cs l⟩ :: visitsAll (.element kind tag ps cs l :: above) cs
  | .pseudo selector ps l => [⟨above, .pseudo selector ps l⟩]
  | .condition branch cs l => ⟨above, .condition branch cs l⟩ :: visitsAll (.condition branch cs l :: above) cs
  | .loop item index collection key cs l =>
    ⟨above, .loop item index collection key cs l⟩ :: visitsAll (.loop item index collection key cs l :: above) cs

/-- The visits of the nodes of a forest in `above`. -/
def visitsAll (above : List Node) : List Node → List Visit
  | [] => []
  | n :: ns => visits above n ++ visitsAll above ns

end

variable {above ns : List Node} {v : Visit}

/-- A node comes before its children, which are in it. -/
theorem visits_eq (above : List Node) (n : Node) :
    n.visits above = ⟨above, n⟩ :: visitsAll (n :: above) n.children := by
  cases n <;> rfl

theorem visitsAll_cons (above : List Node) (n : Node) (ns : List Node) :
    visitsAll above (n :: ns) = ⟨above, n⟩ :: (visitsAll (n :: above) n.children ++ visitsAll above ns) := by
  rw [visitsAll, visits_eq, List.cons_append]

theorem preorder_eq (depth : Nat) (n : Node) : n.preorder depth = (n, depth) :: preorderAll (depth + 1) n.children := by
  cases n <;> rfl

/-- **The visits are the nodes in pre-order**, and the depth of a node is the number of nodes that it is in. -/
theorem preorderAll_eq_visitsAll (ns above : List Node) :
    preorderAll above.length ns = (visitsAll above ns).map fun v => (v.node, v.above.length) := by
  induction ns using forest_induction generalizing above with
  | nil => rfl
  | cons n ns ihn ihs =>
    have hchildren := ihn (n :: above)
    rw [List.length_cons] at hchildren
    rw [preorderAll, preorder_eq, visitsAll_cons, hchildren, ihs above]
    simp

/-- Whatever is visited in a forest is in what the forest is in. -/
theorem suffix_above_of_mem (h : v ∈ visitsAll above ns) : above <:+ v.above := by
  induction ns using forest_induction generalizing above with
  | nil => cases h
  | cons n ns ihn ihs =>
    rw [visitsAll_cons, List.mem_cons, List.mem_append] at h
    rcases h with rfl | h | h
    · exact List.suffix_rfl
    · exact (List.suffix_cons n above).trans (ihn h)
    · exact ihs h

end Trellis.Node

namespace Trellis.Document

/-- The nodes of a document in pre-order, each with the nodes that it is in. -/
def visits (d : Document) : List Node.Visit := Node.visitsAll [] d.children

end Trellis.Document
