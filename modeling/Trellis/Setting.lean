import Trellis.Text.Basic

/-!
# Settings

A setting that takes a value. A double dash in the place of a value is taken away like the one that ends the
switches, and the setting is left blank. A blank setting does no harm until its value is needed.
-/

namespace Trellis

/-- A setting that takes a value. -/
inductive Setting (α : Type) where
  | blank
  | given (value : α)
  deriving DecidableEq, Repr

/-- What a value was needed for when the setting was blank. -/
inductive Need where
  | directory
  | suffix
  | level
  deriving DecidableEq, Repr

def Need.name : Need → Text
  | .directory => "is_dir"
  | .suffix => "suffix"
  | .level => "upper"

/-- What is said when a setting is blank. -/
def Need.message (n : Need) : Text := "'list' object has no attribute '" ++ n.name ++ "'"

namespace Setting

variable {α : Type}

def value? : Setting α → Option α
  | .blank => none
  | .given v => some v

/-- The value for a need. -/
def valueFor (n : Need) (s : Setting α) : Except Need α :=
  match s with
  | .blank => .error n
  | .given v => .ok v

end Setting

end Trellis
