import Trellis.Text.Basic
import Trellis.Text.CaseTable
import Trellis.Text.Ranges

/-!
# Lower and upper case

Lower case is the full mapping of every script: a capital I with a dot becomes two characters, and a
capital sigma becomes the final form when a cased character stands before it and none follows.
Upper case is only ever asked of ASCII words.
-/

namespace Trellis.Text

/-- The lower case partner of one character, out of context. -/
def lowerChar (c : Char) : Char :=
  let n := c.toNat
  if n < 0x80 then if 0x41 ≤ n && n ≤ 0x5a then Char.ofNat (n + 32) else c
  else
    match lowerRuns.find? fun r => r.first ≤ n && n ≤ r.last && (n - r.first) % r.stride = 0 with
    | some r => Char.ofNat (n + r.shift).toNat
    | none => c

/-- The nearest character that is not passed over is cased. -/
def meetsCased : Text → Bool
  | [] => false
  | c :: t =>
    if inRanges passedRanges c.toNat then meetsCased t else inRanges casedRanges c.toNat

/-- Lower case of `t`, where `before` holds the preceding characters, nearest first. -/
def lowerFrom (before : Text) : Text → Text
  | [] => []
  | c :: t =>
    if c.toNat = 0x3a3 then
      Char.ofNat (if meetsCased before && !meetsCased t then 0x3c2 else 0x3c3) ::
        lowerFrom (c :: before) t
    else if c.toNat = 0x130 then 'i' :: Char.ofNat 0x307 :: lowerFrom (c :: before) t
    else lowerChar c :: lowerFrom (c :: before) t

def lower (t : Text) : Text := lowerFrom [] t

/-- Capital letters for the ASCII letters of a text. -/
def upperAscii (t : Text) : Text :=
  t.map fun c => if 0x61 ≤ c.toNat && c.toNat ≤ 0x7a then Char.ofNat (c.toNat - 32) else c

end Trellis.Text
