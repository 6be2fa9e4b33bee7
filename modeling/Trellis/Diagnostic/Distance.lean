import Trellis.Text.Case

/-!
# Edit distance and suggestions

The edit distance is computed row by row: after reading `s`, the row holds the distances from `s` to every
beginning of `t`. Suggestions are the candidates within a distance, nearest first, then in text order.
-/

namespace Trellis

/-- The rest of a row for the character `c`: `left` is the entry just written, `diag` the entry above it. -/
def nextRowFrom (c : Char) (left diag : Nat) : Text → List Nat → List Nat
  | d :: t, up :: above =>
    let here := min (min (up + 1) (left + 1)) (diag + if c = d then 0 else 1)
    here :: nextRowFrom c here up t above
  | _, _ => []

/-- The row after one more character `c` of the first text. -/
def nextRow (t : Text) (row : List Nat) (c : Char) : List Nat :=
  match row with
  | [] => []
  | r :: above => (r + 1) :: nextRowFrom c (r + 1) r t above

/-- The row of distances from `s` to every beginning of `t`. -/
def distanceRow (s t : Text) : List Nat := s.foldl (nextRow t) (List.range (t.length + 1))

/-- The least number of insertions, deletions and substitutions that turn one text into the other. The
shorter text spans the row. -/
def editDistance (s t : Text) : Nat :=
  if s.length < t.length then (distanceRow t s).getLastD 0 else (distanceRow s t).getLastD 0

/-- The first `n` elements; a negative `n` drops that many from the end. -/
def takeSigned {α : Type} (n : Int) (xs : List α) : List α :=
  if 0 ≤ n then xs.take n.toNat else xs.take (xs.length - (-n).toNat)

/-- A candidate with its distance, when it is close enough. Lengths that differ by more than the allowed
distance are not looked at. -/
def scoreCandidate? (name : Text) (maxDistance : Int) (candidate : Text) : Option (Nat × Text) :=
  let gap : Int := (candidate.length : Int) - name.length
  if gap.natAbs > maxDistance then none
  else
    let d := editDistance (Text.lower name) (Text.lower candidate)
    if (d : Int) ≤ maxDistance then some (d, candidate) else none

/-- By distance, then by text. -/
def scoreLe (a b : Nat × Text) : Bool := a.1 < b.1 || (a.1 == b.1 && Text.le a.2 b.2)

/-- The candidates near `name`, nearest first. -/
def suggestSimilar (name : Text) (candidates : List Text) (maxDistance maxCount : Int) :
    List Text :=
  (takeSigned maxCount ((candidates.filterMap (scoreCandidate? name maxDistance)).mergeSort scoreLe)).map (·.2)

end Trellis
