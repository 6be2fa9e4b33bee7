import Trellis.Failure
import Trellis.Port.Authority
import Trellis.Text.Blank
import Trellis.Value

/-!
# Server ports

What a server listens on, as it is declared: a number, `host:number`, or a URL with a port, each possibly in quotes.
A missing port, or a URL or quoted text without one, means 3000; any other text is an expression of the
generated program.
-/

namespace Trellis

/-- The port a server listens on. -/
inductive Port where
  | number (n : Nat)
  | expression (text : Text)
  deriving DecidableEq, Repr

/-- Why a declared port cannot be used. -/
inductive PortFault where
  | outOfRange (raw : Text)
  | invalid (raw : Text)
  | digits (fault : DigitFault)
  deriving DecidableEq, Repr

namespace Port

def default : Port := .number 3000

def toText : Port → Text
  | .number n => Text.ofNat n
  | .expression t => t

/-- The number that digits in the wide sense stand for. -/
def number? (t : Text) : Except DigitFault Nat :=
  let leading := (t.takeWhile Text.isDecimal).length
  if leading > Text.maxDigits then .error (.tooLong leading)
  else match Text.decimalValue? t with
    | some n => .ok n
    | none => .error (.notDecimal t)

/-- Only the numbers 1 to 65535 are ports. -/
def check (raw : Text) (n : Nat) : Except PortFault Port :=
  if 0 < n && n ≤ 65535 then .ok (.number n) else .error (.outOfRange raw)

/-- Reads the digits of a declaration. -/
def ofDigits (raw digits : Text) : Except PortFault Port :=
  match number? digits with
  | .ok n => check raw n
  | .error f => .error (.digits f)

/-- The digits of `host:digits`, with an optional slash at the end. -/
def hostPort? (t : Text) : Option Text := do
  let host := t.takeWhile fun c => Text.isWord c || c = '.' || c = '-'
  match t.drop host.length with
  | ':' :: r =>
    let digits := r.takeWhile Text.isDecimal
    let rest := r.dropWhile Text.isDecimal
    if !digits.isEmpty && (rest = [] || rest = ['/']) then some digits else none
  | _ => none

/-- Reads a declaration. -/
def derive (declared : Option Text) : Except PortFault Port :=
  match declared with
  | none => .ok default
  | some raw =>
    let raw := Text.trim raw
    let text := Text.trim (Value.unquote raw)
    if !text.isEmpty && text.all Text.isDigit then ofDigits raw text
    else match hostPort? text with
      | some digits => ofDigits raw digits
      | none =>
        if Text.occursIn "://" text then
          match Authority.port text with
          | .error _ => .error (.invalid raw)
          | .ok none => .ok default
          | .ok (some n) => check raw n
        else if text ≠ raw || text.isEmpty then .ok default
        else .ok (.expression text)

end Port

/-- The failure of a port that cannot be used; digits that are no number are not a failure of the declaration. -/
def PortFault.toFailure (f : PortFault) (location : Option Location) : Except DigitFault Failure :=
  match f with
  | .outOfRange raw => .ok { kind := .generator, message := "port out of range in '" ++ raw ++ "'", location := location }
  | .invalid raw => .ok { kind := .generator, message := "invalid port in '" ++ raw ++ "'", location := location }
  | .digits d => .error d

end Trellis
