import Trellis.Line

/-!
# Line forests

The nesting of body lines by indentation alone: the lines below a line are the following ones that are
indented deeper. Some lines (comments, responses) take no lines below them; what follows them stays beside
them.
-/

namespace Trellis

/-- A line and the lines below it. -/
inductive LineTree where
  | node (line : BodyLine) (below : List LineTree)
  deriving Repr

namespace LineTree

/-- Nests lines by indentation; a line for which `leaf` holds takes nothing below it. -/
def nest (leaf : BodyLine → Bool) (lines : List BodyLine) : List LineTree :=
  match lines with
  | [] => []
  | l :: ls =>
    if leaf l then .node l [] :: nest leaf ls
    else
      .node l (nest leaf (ls.takeWhile fun x => l.indent < x.indent)) ::
        nest leaf (ls.dropWhile fun x => l.indent < x.indent)
termination_by lines.length
decreasing_by
  · simp
  · exact Nat.lt_succ_of_le (List.takeWhile_sublist _).length_le
  · exact Nat.lt_succ_of_le (List.dropWhile_sublist _).length_le

end LineTree

end Trellis
