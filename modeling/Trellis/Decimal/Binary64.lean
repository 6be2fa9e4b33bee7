/-!
# Binary64 numbers

The numbers of the 64-bit binary format, held exactly: a finite one is a significand below `2 ^ 53` times a
power of two from `2 ^ -1074` up. Decimals and integers are read by rounding to the nearest such number, a half
going to the even neighbour.
-/

namespace Trellis

inductive Binary64 where
  | nan
  | infinite (negative : Bool)
  | finite (negative : Bool) (significand : Nat) (exponent : Int)
  deriving DecidableEq, Repr

namespace Binary64

def two (k : Nat) : Nat := Nat.pow 2 k

def ten (k : Nat) : Nat := Nat.pow 10 k

/-- The quotient rounded to the nearest natural number, a half to the even one. -/
def roundDiv (num den : Nat) : Nat :=
  let q := num / den
  let r := num % den
  if 2 * r < den || (2 * r = den && q % 2 = 0) then q else q + 1

/-- Numerator and denominator of `num / den / 2 ^ e`. -/
def shifted (num den : Nat) (e : Int) : Nat × Nat :=
  match e with
  | .ofNat k => (num, den * two k)
  | .negSucc k => (num * two (k + 1), den)

/-- The exponent that gives `num / den` a significand of 53 bits, or the least one. -/
def exponentOf (num den : Nat) : Int :=
  let e : Int := (num.log2 : Int) - (den.log2 : Int) - 52
  let (n, d) := shifted num den e
  let e := if n / d < two 52 then e - 1 else e
  if e < -1074 then -1074 else e

/-- The number nearest to the positive ratio `num / den`, as significand and exponent; none when it is too large. -/
def nearest? (num den : Nat) : Option (Nat × Int) :=
  let e := exponentOf num den
  let (n, d) := shifted num den e
  let m := roundDiv n d
  let (m, e) := if m = two 53 then (two 52, e + 1) else (m, e)
  if e > 971 then none else some (m, e)

/-- Reads `digits` times a power of ten. Too large a decimal is infinite, too small a one zero. -/
def ofDecimal (negative : Bool) (digits : Nat) (exponent : Int) : Binary64 :=
  let size : Int := (Nat.toDigits 10 digits).length + exponent
  if digits = 0 || size < -330 then .finite negative 0 (-1074)
  else if size > 310 then .infinite negative
  else
    let (num, den) := match exponent with
      | .ofNat k => (digits * ten k, 1)
      | .negSucc k => (digits, ten (k + 1))
    match nearest? num den with
    | some (m, e) => .finite negative m e
    | none => .infinite negative

/-- Reads an integer; none when it is too large. -/
def ofInt? (n : Int) : Option Binary64 :=
  if n = 0 then some (.finite false 0 (-1074))
  else (nearest? n.natAbs 1).map fun (m, e) => .finite (decide (n < 0)) m e

/-- The number is at most zero; what is not a number is not. -/
def isNonpositive : Binary64 → Bool
  | .nan => false
  | .infinite negative => negative
  | .finite negative m _ => negative || m = 0

end Binary64

end Trellis
