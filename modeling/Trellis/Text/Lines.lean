import Trellis.Text.Basic

/-!
# Lines

A text is cut into lines at line feed, carriage return (with a following line feed), vertical tab, form
feed, the three information separators, next line, and the line and paragraph separators. A terminator
at the end of the text opens no further line.
-/

namespace Trellis.Text

/-- A line terminator. -/
def isBreak (c : Char) : Bool :=
  let n := c.toNat
  (0x0a ≤ n && n ≤ 0x0d) || (0x1c ≤ n && n ≤ 0x1e) || n = 0x85 || n = 0x2028 || n = 0x2029

/-- The lines of a text, without their terminators. -/
def lines : Text → List Text
  | [] => []
  | '\r' :: '\n' :: t => [] :: lines t
  | c :: t =>
    if isBreak c then [] :: lines t
    else match lines t with
      | [] => [[c]]
      | l :: ls => (c :: l) :: ls

/-- Every line end written as a line feed: `\r\n` and `\r` become `\n`. -/
def unifyBreaks : Text → Text
  | [] => []
  | '\r' :: '\n' :: t => '\n' :: unifyBreaks t
  | c :: t => (if c = '\r' then '\n' else c) :: unifyBreaks t

end Trellis.Text
