import Trellis.Text.Basic
import Trellis.Text.PrintableTable
import Trellis.Text.Ranges

/-!
# Quoted texts

Two written forms of a text. `quoted` is the form shown in listings: single quotes (double ones when
only a single quote occurs inside), with escapes for what cannot be shown. `jsonQuoted` is the ASCII form
with double quotes used for object keys.
-/

namespace Trellis.Text

/-- The character is written as itself in a listing. -/
def isShown (c : Char) : Bool :=
  let n := c.toNat
  if n < 0x80 then 0x20 ≤ n && n < 0x7f else !inRanges hiddenRanges n

def hexDigit (n : Nat) : Char := if n < 10 then Char.ofNat (0x30 + n) else Char.ofNat (0x57 + n)

/-- The last `width` hexadecimal digits of `n`. -/
def hexDigits : (width n : Nat) → Text
  | 0, _ => []
  | w + 1, n => hexDigits w (n / 16) ++ [hexDigit (n % 16)]

/-- One character inside quotes `q`. -/
def quotedChar (q c : Char) : Text :=
  if c = '\\' || c = q then ['\\', c]
  else if c = '\n' then "\\n"
  else if c = '\r' then "\\r"
  else if c = '\t' then "\\t"
  else if isShown c then [c]
  else if c.toNat < 0x100 then "\\x" ++ hexDigits 2 c.toNat
  else if c.toNat < 0x10000 then "\\u" ++ hexDigits 4 c.toNat
  else "\\U" ++ hexDigits 8 c.toNat

/-- The form shown in listings. -/
def quoted (t : Text) : Text :=
  let q := if t.contains '\'' && !t.contains '"' then '"' else '\''
  q :: t.flatMap (quotedChar q) ++ [q]

/-- One UTF-16 unit as an escape. -/
def unitEscape (n : Nat) : Text := "\\u" ++ hexDigits 4 n

/-- One character inside the ASCII form. -/
def jsonChar (c : Char) : Text :=
  let n := c.toNat
  if c = '"' then "\\\""
  else if c = '\\' then "\\\\"
  else if c = '\n' then "\\n"
  else if c = '\r' then "\\r"
  else if c = '\t' then "\\t"
  else if n = 0x0c then "\\f"
  else if n = 0x08 then "\\b"
  else if 0x20 ≤ n && n < 0x7f then [c]
  else if n < 0x10000 then unitEscape n
  else unitEscape (0xd800 + (n - 0x10000) / 0x400) ++ unitEscape (0xdc00 + (n - 0x10000) % 0x400)

/-- The ASCII form in double quotes, with surrogate pairs above the basic plane. -/
def jsonQuoted (t : Text) : Text := '"' :: t.flatMap jsonChar ++ ['"']

end Trellis.Text
