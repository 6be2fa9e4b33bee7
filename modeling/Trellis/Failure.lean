import Trellis.Location
import Trellis.Text.Quoted

/-!
# Failures

Why a compilation gives no output. A failure with a source line and a location is shown with a caret below that
line, moved to the right by the column of the location. A line that is shown without its indent has its caret too
far to the right, by that indent:

    [App.ygg:2:5] unrecognised line (1 error(s) in total)
        bogus
            ^
-/

namespace Trellis

/-- Who gave up. -/
inductive FailureKind where
  | parser
  | generator
  | config
  | other
  deriving DecidableEq, Repr

structure Failure where
  kind : FailureKind
  message : Text
  location : Option Location := none
  sourceLine : Option Text := none
  deriving DecidableEq, Repr

def Failure.toText (f : Failure) : Text :=
  match f.location with
  | none => f.message
  | some l =>
    let header := "[" ++ l.toText ++ "] " ++ f.message
    match f.sourceLine with
    | none | some [] => header
    | some line => header ++ "\n    " ++ line ++ "\n" ++ Text.spaces (4 + l.column - 1).toNat ++ "^"

/-- Why digits are no number: one of them is not decimal, or there are too many. -/
inductive DigitFault where
  | notDecimal (text : Text)
  | tooLong (count : Nat)
  deriving DecidableEq, Repr

/-- The wording of a digit fault; a long text is cut. -/
def DigitFault.message : DigitFault → Text
  | .notDecimal text => "invalid literal for int() with base 10: " ++ (Text.quoted text).take 200
  | .tooLong count =>
    "Exceeds the limit (4300 digits) for integer string conversion: value has " ++ Text.ofNat count
      ++ " digits; use sys.set_int_max_str_digits() to increase the limit"

end Trellis
