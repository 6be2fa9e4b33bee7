import Trellis.Text.Basic

/-!
# Blanks

A blank is one of the 29 white space code points. The zero width space, the byte order mark and the
Mongolian vowel separator are not blanks.
-/

namespace Trellis.Text

def isBlank (c : Char) : Bool :=
  let n := c.toNat
  if n < 0x80 then n = 0x20 || (0x09 ≤ n && n ≤ 0x0d) || (0x1c ≤ n && n ≤ 0x1f)
  else n = 0x85 || n = 0xa0 || n = 0x1680 || (0x2000 ≤ n && n ≤ 0x200a) || n = 0x2028 || n = 0x2029
    || n = 0x202f || n = 0x205f || n = 0x3000

def trimStart (t : Text) : Text := t.dropWhile isBlank

def trimEnd : Text → Text
  | [] => []
  | c :: t =>
    match trimEnd t with
    | [] => if isBlank c then [] else [c]
    | s => c :: s

def trim (t : Text) : Text := trimEnd (trimStart t)

def isBlankText (t : Text) : Bool := t.all isBlank

/-- The maximal runs of characters that are not blank. -/
def words : Text → List Text
  | [] => []
  | [c] => if isBlank c then [] else [[c]]
  | c :: d :: t =>
    if isBlank c then words (d :: t)
    else if isBlank d then [c] :: words (d :: t)
    else match words (d :: t) with
      | [] => [[c]]
      | w :: ws => (c :: w) :: ws

/-- Without trailing occurrences of `x`. -/
def trimEndOf (x : Char) (t : Text) : Text := (t.reverse.dropWhile (· = x)).reverse

end Trellis.Text
