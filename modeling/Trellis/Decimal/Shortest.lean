import Trellis.Decimal.Binary64
import Trellis.Text.Basic

/-!
# Shortest decimals

A binary number is written with the fewest digits that read back as the same number; of two such decimals the
nearer one is taken. Numbers from 0.0001 up to 16 digits are written positionally, the others with an exponent.
-/

namespace Trellis.Binary64

/-- A decimal: its digits stand right after the point, which is then moved by a power of ten. -/
structure Decimal where
  digits : Text
  point : Int
  deriving DecidableEq, Repr

/-- Numerator and denominator of a positive number. -/
def ratio (significand : Nat) (exponent : Int) : Nat × Nat :=
  match exponent with
  | .ofNat k => (significand * two k, 1)
  | .negSucc k => (significand, two (k + 1))

/-- The power of ten just above `num / den`. No positive number of the format lies below `10 ^ -400`. -/
def pointOf (num den : Nat) : Int := (Nat.toDigits 10 (num * ten 400 / den)).length - 400

/-- The decimal of `count` digits next to `num / den` that reads back as the same number, if there is one. -/
def decimalOf? (num den : Nat) (count : Nat) : Option Decimal :=
  let scale : Int := count - pointOf num den
  let (n, d) := match scale with
    | .ofNat k => (num * ten k, den)
    | .negSucc k => (num, den * ten (k + 1))
  let low := n / d
  let same (digits : Nat) : Bool := decide (digits ≠ 0) && ofDecimal false digits (-scale) = ofRatio num den
  let upper := 2 * (n % d) > d || (2 * (n % d) = d && low % 2 = 1)
  let order := if upper then [low + 1, low] else [low, low + 1]
  (order.find? same).map fun digits =>
    let written := Nat.toDigits 10 digits
    { digits := (written.reverse.dropWhile (· = '0')).reverse, point := written.length - scale }
where
  /-- The number that a ratio stands for. -/
  ofRatio (num den : Nat) : Binary64 :=
    match nearest? num den with
    | some (m, e) => .finite false m e
    | none => .infinite false

/-- The decimal with the fewest digits. Seventeen always suffice. -/
def shortest (significand : Nat) (exponent : Int) : Decimal :=
  let (num, den) := ratio significand exponent
  ((List.range 17).findSome? fun k => decimalOf? num den (k + 1)).getD ⟨['0'], 1⟩

/-- The exponent of a written number: a sign and at least two digits. -/
def exponentText (e : Int) : Text :=
  let digits := Text.ofNat e.natAbs
  (if e < 0 then '-' else '+') :: (if digits.length < 2 then '0' :: digits else digits)

def Decimal.toText (d : Decimal) : Text :=
  if -4 < d.point && d.point ≤ 16 then
    if d.point ≤ 0 then "0." ++ List.replicate d.point.natAbs '0' ++ d.digits
    else
      let whole := d.point.toNat
      let digits := d.digits ++ List.replicate (whole - d.digits.length) '0'
      let fraction := digits.drop whole
      digits.take whole ++ "." ++ (if fraction.isEmpty then ['0'] else fraction)
  else
    let fraction := d.digits.drop 1
    d.digits.take 1 ++ (if fraction.isEmpty then [] else '.' :: fraction) ++ "e" ++ exponentText (d.point - 1)

def toText : Binary64 → Text
  | .nan => "nan"
  | .infinite negative => if negative then "-inf" else "inf"
  | .finite negative m e =>
    let magnitude : Text := if m = 0 then "0.0" else (shortest m e).toText
    if negative then '-' :: magnitude else magnitude

end Trellis.Binary64
