import Trellis.Text.Basic
import Trellis.Text.DigitTable
import Trellis.Text.Ranges

/-!
# Digits

Decimal digits of every script have values 0 to 9 and form numbers. The wider class `isDigit` also holds
superscripts and circled digits, which have no place in a decimal number.
-/

namespace Trellis.Text

/-- The value of a decimal digit of any script. -/
def digitValue? (c : Char) : Option Nat :=
  let n := c.toNat
  if n < 0x80 then if 0x30 ≤ n && n ≤ 0x39 then some (n - 0x30) else none
  else (rangeStart? decimalRanges n).map fun s => (n - s) % 10

/-- A decimal digit of any script. -/
def isDecimal (c : Char) : Bool :=
  let n := c.toNat
  if n < 0x80 then 0x30 ≤ n && n ≤ 0x39 else inRanges decimalRanges n

/-- A digit in the wide sense. -/
def isDigit (c : Char) : Bool :=
  isDecimal c || (c.toNat ≥ 0x80 && inRanges digitRanges c.toNat)

def isAsciiDigit (c : Char) : Bool := 0x30 ≤ c.toNat && c.toNat ≤ 0x39

/-- The most digits a decimal number may be written with. -/
def maxDigits : Nat := 4300

def decimalValue? (t : Text) : Option Nat :=
  t.foldl (fun acc c => do return 10 * (← acc) + (← digitValue? c)) (some 0)

end Trellis.Text
