import Trellis.Text.Basic
import Trellis.Text.Ranges
import Trellis.Text.WordTable

/-!
# Words and names

A word character is a letter or number of any script, or an underscore. A name starts with an ASCII
letter, `_` or `$` and goes on with word characters and `$`.
-/

namespace Trellis.Text

def isAsciiLetter (c : Char) : Bool :=
  let n := c.toNat
  (0x41 ≤ n && n ≤ 0x5a) || (0x61 ≤ n && n ≤ 0x7a)

def isAsciiUpper (c : Char) : Bool := 0x41 ≤ c.toNat && c.toNat ≤ 0x5a

/-- A letter or number of any script, or an underscore. -/
def isWord (c : Char) : Bool :=
  let n := c.toNat
  if n < 0x80 then isAsciiLetter c || (0x30 ≤ n && n ≤ 0x39) || c = '_'
  else inRanges wordRanges n

/-- A character that may start a name. -/
def isNameStart (c : Char) : Bool := isAsciiLetter c || c = '_' || c = '$'

/-- A character that may continue a name. -/
def isNamePart (c : Char) : Bool := isWord c || c = '$'

/-- The longest name at the start of a text, and what follows it. -/
def takeName? : Text → Option (Text × Text)
  | [] => none
  | c :: t =>
    if isNameStart c then some (c :: t.takeWhile isNamePart, t.dropWhile isNamePart) else none

theorem takeName?_append {t n r : Text} (h : takeName? t = some (n, r)) : t = n ++ r := by
  cases t with
  | nil => simp [takeName?] at h
  | cons c t =>
    simp only [takeName?] at h
    split at h
    · simp only [Option.some.injEq, Prod.mk.injEq] at h
      obtain ⟨rfl, rfl⟩ := h
      simp [List.takeWhile_append_dropWhile]
    · simp at h

theorem takeName?_ne_nil {t n r : Text} (h : takeName? t = some (n, r)) : n ≠ [] := by
  cases t with
  | nil => simp [takeName?] at h
  | cons c t =>
    simp only [takeName?] at h
    split at h
    · simp only [Option.some.injEq, Prod.mk.injEq] at h
      obtain ⟨rfl, rfl⟩ := h
      simp
    · simp at h

def isName : Text → Bool
  | [] => false
  | c :: t => isNameStart c && t.all isNamePart

/-- The text without one final line feed, if it has one. -/
def dropFinalBreak (t : Text) : Text :=
  match t.reverse with
  | '\n' :: r => r.reverse
  | _ => t

/-- A name, possibly followed by one line feed. -/
def isNameLine (t : Text) : Bool := isName t || isName (dropFinalBreak t)

/-- The names after the first of a dotted name, each with its point, and what follows. -/
def dottedTail (t : Text) : Text × Text :=
  match t with
  | '.' :: r =>
    match h : takeName? r with
    | some (name, rest) =>
      have := congrArg List.length (takeName?_append h)
      ('.' :: name ++ (dottedTail rest).1, (dottedTail rest).2)
    | none => ([], t)
  | _ => ([], t)
termination_by t.length
decreasing_by all_goals
  simp only [List.length_append, List.length_cons] at this ⊢
  omega

/-- The longest dotted name at the start of a text. -/
def dottedName? (t : Text) : Option (Text × Text) :=
  (takeName? t).map fun (name, r) => (name ++ (dottedTail r).1, (dottedTail r).2)

end Trellis.Text
