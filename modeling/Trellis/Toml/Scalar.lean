import Trellis.Text.Digit
import Trellis.Toml.Basic

/-!
# Numbers, dates and times

Integers in base two, eight, ten and sixteen, decimals with fraction and exponent, dates and times of day. Single
underscores may stand between digits. A date must exist in the calendar.
-/

namespace Trellis.Toml

/-- The value of a hexadecimal digit. -/
def digitOf? (base : Nat) (c : Char) : Option Nat :=
  let n := c.toNat
  let v :=
    if 0x30 ≤ n && n ≤ 0x39 then n - 0x30
    else if 0x41 ≤ n && n ≤ 0x46 then n - 0x37
    else if 0x61 ≤ n && n ≤ 0x66 then n - 0x57
    else base
  if v < base then some v else none

/-- The longest run of digits, with single underscores between them. -/
def takeGrouped (base : Nat) : Text → List Nat × Text
  | [] => ([], [])
  | '_' :: c :: t =>
    match digitOf? base c with
    | some d =>
      let (ds, rest) := takeGrouped base t
      (d :: ds, rest)
    | none => ([], '_' :: c :: t)
  | c :: t =>
    match digitOf? base c with
    | some d =>
      let (ds, rest) := takeGrouped base t
      (d :: ds, rest)
    | none => ([], c :: t)

/-- A run of digits that starts with a digit. -/
def takeRun? (base : Nat) : Text → Option (List Nat × Text)
  | c :: t => (digitOf? base c).map fun _ => takeGrouped base (c :: t)
  | [] => none

/-- The number with these digits. -/
def ofDigits (base : Nat) (ds : List Nat) : Nat := ds.foldl (fun n d => base * n + d) 0

/-- A sign, and whether it is a minus. -/
def takeSign : Text → Bool × Text
  | '+' :: t => (false, t)
  | '-' :: t => (true, t)
  | t => (false, t)

/-- A prefixed integer. -/
def takePrefixed? : Text → Option (Nat × Text)
  | '0' :: 'x' :: t => (takeRun? 16 t).map fun (ds, rest) => (ofDigits 16 ds, rest)
  | '0' :: 'o' :: t => (takeRun? 8 t).map fun (ds, rest) => (ofDigits 8 ds, rest)
  | '0' :: 'b' :: t => (takeRun? 2 t).map fun (ds, rest) => (ofDigits 2 ds, rest)
  | _ => none

/-- The whole part of a decimal: a zero, or digits that do not start with one. -/
def takeWhole? : Text → Option (List Nat × Text)
  | '0' :: t => some ([0], t)
  | t => takeRun? 10 t

def takeFraction? : Text → Option (List Nat × Text)
  | '.' :: t => takeRun? 10 t
  | _ => none

def takeExponent? : Text → Option (Int × Text)
  | c :: t =>
    if c = 'e' || c = 'E' then
      let (negative, t) := takeSign t
      (takeRun? 10 t).map fun (ds, rest) =>
        let n : Int := ofDigits 10 ds
        (if negative then -n else n, rest)
    else none
  | [] => none

/-- A decimal number, when one stands here. -/
def takeDecimal? (t : Text) : Option (Except Fault (Value × Text)) :=
  let (negative, t) := takeSign t
  (takeWhole? t).map fun (whole, t) =>
    match takeFraction? t, takeExponent? ((takeFraction? t).elim t (·.2)) with
    | none, none =>
      if whole.length > Text.maxDigits then .error (.digits (.tooLong whole.length))
      else
        let n : Int := ofDigits 10 whole
        .ok (.integer (if negative then -n else n), t)
    | fraction, exponent =>
      let digits := fraction.elim [] (·.1)
      let rest := exponent.elim (fraction.elim t (·.2)) (·.2)
      let scale := exponent.elim 0 (·.1)
      .ok (.float (.ofDecimal negative (ofDigits 10 (whole ++ digits)) (scale - digits.length)), rest)

/-- A number that is infinite or none, when one stands here. -/
def takeSpecial? (t : Text) : Option (Value × Text) :=
  let (negative, rest) := takeSign t
  match rest with
  | 'i' :: 'n' :: 'f' :: rest => some (.float (.infinite negative), rest)
  | 'n' :: 'a' :: 'n' :: rest => some (.float .nan, rest)
  | _ => none

/-- A number of exactly `count` digits within bounds. -/
def takeField? (count low high : Nat) (t : Text) : Option (Nat × Text) :=
  let field := t.take count
  if field.length = count && field.all Text.isAsciiDigit then
    let n := ofDigits 10 (field.map fun c => c.toNat - 0x30)
    if low ≤ n && n ≤ high then some (n, t.drop count) else none
  else none

/-- What follows a character. -/
def takeMark? (c : Char) : Text → Option Text
  | [] => none
  | d :: t => if d = c then some t else none

/-- A date: year, month and day. -/
def takeDate? (t : Text) : Option ((Nat × Nat × Nat) × Text) := do
  let (year, t) ← takeField? 4 0 9999 t
  let (month, t) ← takeField? 2 1 12 (← takeMark? '-' t)
  let (day, t) ← takeField? 2 1 31 (← takeMark? '-' t)
  return ((year, month, day), t)

/-- What follows a fraction of a second. -/
def dropFraction (t : Text) : Text :=
  match t with
  | '.' :: c :: rest => if Text.isAsciiDigit c then rest.dropWhile Text.isAsciiDigit else t
  | _ => t

/-- What follows a time of day. -/
def dropClock? (t : Text) : Option Text := do
  let (_, t) ← takeField? 2 0 23 t
  let (_, t) ← takeField? 2 0 59 (← takeMark? ':' t)
  let (_, t) ← takeField? 2 0 59 (← takeMark? ':' t)
  return dropFraction t

/-- What follows a distance from universal time, which may be absent. -/
def dropOffset (t : Text) : Text :=
  let distance? (t : Text) : Option Text := do
    let (_, t) ← takeField? 2 0 23 t
    let (_, t) ← takeField? 2 0 59 (← takeMark? ':' t)
    return t
  match t with
  | 'Z' :: rest | 'z' :: rest => rest
  | '+' :: rest | '-' :: rest => (distance? rest).getD t
  | _ => t

def daysIn (year month : Nat) : Nat :=
  if month = 2 then
    if year % 4 = 0 && (year % 100 ≠ 0 || year % 400 = 0) then 29 else 28
  else if month = 4 || month = 6 || month = 9 || month = 11 then 30
  else 31

/-- What follows the time that belongs to a date; a date may stand alone. -/
def dropDateTime (t : Text) : Text :=
  match t with
  | c :: rest =>
    if c = 'T' || c = 't' || c = ' ' then (dropClock? rest).elim t dropOffset else t
  | [] => t

/-- A date or a time, when one stands here. -/
def takeMoment? (t : Text) : Option (Except Fault (Value × Text)) :=
  let moment (rest : Text) : Value × Text := (.moment (t.take (t.length - rest.length)), rest)
  match takeDate? t with
  | some ((year, month, day), rest) =>
    if 1 ≤ year && day ≤ daysIn year month then some (.ok (moment (dropDateTime rest)))
    else some (.error .malformed)
  | none => (dropClock? t).map fun rest => .ok (moment rest)

/-- A scalar that is no quoted text and no flag. -/
def readScalar (t : Text) : Except Fault (Value × Text) :=
  match takeMoment? t with
  | some r => r
  | none =>
    match takePrefixed? t with
    | some (n, rest) => .ok (.integer n, rest)
    | none =>
      match takeDecimal? t with
      | some r => r
      | none =>
        match takeSpecial? t with
        | some r => .ok r
        | none => .error .malformed

end Trellis.Toml
