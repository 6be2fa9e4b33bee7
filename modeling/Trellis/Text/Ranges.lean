/-!
# Ranges of code points

A class of characters as a list of inclusive ranges.
-/

namespace Trellis.Text

/-- `n` lies in one of the ranges. -/
def inRanges (ranges : List (Nat × Nat)) (n : Nat) : Bool :=
  ranges.any fun r => r.1 ≤ n && n ≤ r.2

/-- The first code point of the range that holds `n`. -/
def rangeStart? (ranges : List (Nat × Nat)) (n : Nat) : Option Nat :=
  (ranges.find? fun r => r.1 ≤ n && n ≤ r.2).map (·.1)

end Trellis.Text
