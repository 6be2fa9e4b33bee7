import Trellis.Text.Blank
import Trellis.Text.Digit

/-!
# Written integers

An integer is written with decimal digits of any script, a sign before them if need be, blanks around, and single
underscores between digits. The four separators among the blanks do not count as such here.
-/

namespace Trellis.Text

/-- The values of digits with single underscores between them. -/
def groupedDigits? : Text → Option (List Nat)
  | [] => none
  | [c] => (digitValue? c).map ([·])
  | c :: '_' :: t => do return (← digitValue? c) :: (← groupedDigits? t)
  | c :: t => do return (← digitValue? c) :: (← groupedDigits? t)

/-- The number that a text of digits stands for. -/
def unsigned? (t : Text) : Option Nat := do
  let ds ← groupedDigits? t
  if ds.length > maxDigits then none else some (ds.foldl (fun n d => 10 * n + d) 0)

/-- A blank that may stand around an integer: any but the separators. -/
def isPadding (c : Char) : Bool := isBlank c && !(0x1c ≤ c.toNat && c.toNat ≤ 0x1f)

/-- Without padding at either end. -/
def unpad (t : Text) : Text := ((t.dropWhile isPadding).reverse.dropWhile isPadding).reverse

/-- The integer that a text stands for. -/
def toInt? (t : Text) : Option Int :=
  match unpad t with
  | '-' :: ds => (unsigned? ds).map fun n => -(n : Int)
  | '+' :: ds => (unsigned? ds).map fun n => (n : Int)
  | ds => (unsigned? ds).map fun n => (n : Int)

end Trellis.Text
