/-!
# Text

A text is the list of its code points, so positions, columns and lengths count code points.
String literals stand for texts by coercion.
-/

namespace Trellis

/-- A text: the list of its code points. -/
abbrev Text := List Char

instance : Coe String Text := ⟨String.toList⟩

namespace Text

/-- Decimal digits of a natural number. -/
def ofNat (n : Nat) : Text := Nat.toDigits 10 n

/-- Decimal digits of an integer, with a leading minus sign when negative. -/
def ofInt : Int → Text
  | .ofNat n => ofNat n
  | .negSucc n => '-' :: ofNat (n + 1)

def spaces (n : Nat) : Text := List.replicate n ' '

/-- The texts in order, with `sep` between neighbours. -/
def join (sep : Text) (parts : List Text) : Text := List.intercalate sep parts

/-- The texts of `ls` as lines of one text, separated by line feeds. -/
def unlines (ls : List Text) : Text := join ['\n'] ls

/-- What follows `p` in `t`, when `t` starts with `p`. -/
def after? : (p t : Text) → Option Text
  | [], t => some t
  | _ :: _, [] => none
  | a :: p, b :: t => if a = b then after? p t else none

def startsWith (t p : Text) : Bool := (after? p t).isSome

def endsWith (t p : Text) : Bool := startsWith t.reverse p.reverse

def occursIn (p : Text) : Text → Bool
  | [] => p.isEmpty
  | c :: t => startsWith (c :: t) p || occursIn p t

section Cut

variable {α : Type} [DecidableEq α]

/-- The pieces between occurrences of `sep`; always at least one. -/
def splitAt (sep : α) : List α → List (List α)
  | [] => [[]]
  | c :: t =>
    if c = sep then [] :: splitAt sep t
    else match splitAt sep t with
      | [] => [[c]]
      | p :: ps => (c :: p) :: ps

/-- The part before the first `sep` and the part after it. -/
def cut? (sep : α) : List α → Option (List α × List α)
  | [] => none
  | c :: t => if c = sep then some ([], t) else (cut? sep t).map fun (a, b) => (c :: a, b)

/-- The part before the last `sep` and the part after it. -/
def cutLast? (sep : α) (t : List α) : Option (List α × List α) :=
  (cut? sep t.reverse).map fun (a, b) => (b.reverse, a.reverse)

end Cut

/-- The order by codes, position by position; a proper beginning comes first. -/
def leBy {α : Type} (code : α → Nat) : List α → List α → Bool
  | [], _ => true
  | _ :: _, [] => false
  | a :: s, b :: t => code a < code b || (code a == code b && leBy code s t)

/-- Code point order. -/
def le (s t : Text) : Bool := leBy Char.toNat s t

end Text

end Trellis
