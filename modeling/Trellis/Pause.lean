import Trellis.Decimal.Shortest

/-!
# Pauses

A pause is asked for in seconds and taken in nanoseconds, for which there are 63 bits. Seconds that are no number, too
many seconds and seconds below zero are refused, and so is a pause at whose end the clock would have run out of bits.
-/

namespace Trellis

/-- Why a pause is refused. -/
inductive PauseFault where
  | notNumber
  | outOfRange
  | negative
  | pastEnd
  deriving DecidableEq, Repr

def PauseFault.message : PauseFault → Text
  | .notNumber => "Invalid value NaN (not a number)"
  | .outOfRange => "timestamp out of range for platform time_t"
  | .negative => "sleep length must be non-negative"
  | .pastEnd => "[Errno 22] Invalid argument"

namespace Binary64

/-- The first number of nanoseconds that is out of range. -/
def nanosecondLimit : Nat := two 63

/-- The nanoseconds in a number of seconds. The product is rounded as products of binary numbers are, and what is left
of a nanosecond counts as one; none when the product is infinite. -/
def nanoseconds? (significand : Nat) (exponent : Int) : Option Nat :=
  let (num, den) := ratio significand exponent
  (nearest? (num * ten 9) den).map fun (m, e) =>
    let (n, d) := ratio m e
    (n + d - 1) / d

/-- Why there is no pause of so many seconds when the clock shows `now`, in nanoseconds. -/
def pauseFault? (now : Nat) : Binary64 → Option PauseFault
  | .nan => some .notNumber
  | .infinite _ => some .outOfRange
  | .finite negative m e =>
    match nanoseconds? m e with
    | none => some .outOfRange
    | some count =>
      if nanosecondLimit ≤ count then some .outOfRange
      else if negative && count ≠ 0 then some .negative
      else if nanosecondLimit ≤ now + count then some .pastEnd
      else none

end Binary64

end Trellis
