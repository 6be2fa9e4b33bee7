import Trellis.Markup.Tree
import Trellis.Text.Case

/-!
# Style sheets under construction

While a template is built, every element gets a class of its own and the style rules are collected in the order
in which their selectors first appear.
-/

namespace Trellis

/-- Classes given out and rules collected so far. -/
structure Sheet where
  counters : List (Text × Nat) := []
  rules : List StyleRule := []
  styled : List Text := []
  deriving DecidableEq, Repr

namespace Sheet

/-- How many elements of a kind have been counted. -/
def count (s : Sheet) (kind : Text) : Nat := (s.counters.lookup kind).getD 0

/-- Sets the counter of a kind. -/
def setCount (kind : Text) (n : Nat) : List (Text × Nat) → List (Text × Nat)
  | [] => [(kind, n)]
  | (k, m) :: r => if k = kind then (k, n) :: r else (k, m) :: setCount kind n r

/-- The class of the next element of a kind. An explicit tag names the class; otherwise the elements of a kind
are numbered. -/
def nextClass (kind : Text) (tag : Option Text) (s : Sheet) : Text × Sheet :=
  match tag with
  | none | some [] =>
    let n := s.count kind + 1
    (Text.lower kind ++ "-" ++ Text.ofNat n, { s with counters := setCount kind n s.counters })
  | some t => (Text.lower kind ++ "-" ++ t, s)

/-- Adds declarations to the rule of a selector, which is opened at the end when it is new. -/
def declareIn (selector : Text) (ds : List Style.Declaration) : List StyleRule → List StyleRule
  | [] => [⟨selector, ds⟩]
  | r :: rs =>
    if r.selector = selector then { r with declarations := r.declarations ++ ds } :: rs
    else r :: declareIn selector ds rs

/-- Adds declarations to the rule of a selector. -/
def declare (selector : Text) (ds : List Style.Declaration) (s : Sheet) : Sheet :=
  { s with rules := declareIn selector ds s.rules }

/-- Adds the default style of a kind to a class, once. -/
def addDefaults (cls kind : Text) (s : Sheet) : Sheet :=
  match Style.defaults kind with
  | [] => s
  | ds =>
    if s.styled.contains cls then s
    else { s with styled := s.styled ++ [cls] }.declare ('.' :: cls) ds

end Sheet

end Trellis
