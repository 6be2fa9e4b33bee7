import Trellis.Toml.Scalar

/-!
# Quoted texts of settings files

Four quotations: basic ones in double quotes, with escapes, and literal ones in single quotes, without; each on one
line, or over several lines in tripled quotes. Control characters other than a tab stand in none of them, and a line
feed only in the tripled ones. Up to two quotes may stand right before a tripled closing quote.
-/

namespace Trellis.Toml

/-- A control character that no quotation and no comment holds. -/
def isControl (c : Char) : Bool := (c.toNat < 0x20 && c ≠ '\t') || c.toNat = 0x7f

/-- A control character that a quotation over lines does not hold. -/
def isControlInLines (c : Char) : Bool := isControl c && c ≠ '\n'

/-- Spaces and tabs dropped. -/
def dropBlanks (t : Text) : Text := t.dropWhile fun c => c = ' ' || c = '\t'

/-- Spaces, tabs and line feeds dropped. -/
def dropSpace (t : Text) : Text := t.dropWhile fun c => c = ' ' || c = '\t' || c = '\n'

/-- A literal quotation on one line, behind its opening quote. -/
def readLiteral : Text → Except Fault (Text × Text)
  | [] => .error .malformed
  | '\'' :: t => .ok ([], t)
  | c :: t => if isControl c then .error .malformed else (readLiteral t).map fun (s, rest) => (c :: s, rest)

/-- A literal quotation over lines, up to its first tripled quote. -/
def readLiteralLines : Text → Except Fault (Text × Text)
  | [] => .error .malformed
  | '\'' :: '\'' :: '\'' :: t => .ok ([], t)
  | c :: t =>
    if isControlInLines c then .error .malformed else (readLiteralLines t).map fun (s, rest) => (c :: s, rest)

/-- The character with a hexadecimal number of `count` digits. -/
def takeCharacter? (count : Nat) (t : Text) : Option (Char × Text) := do
  let digits ← (t.take count).mapM (digitOf? 16)
  let n := ofDigits 16 digits
  if digits.length = count && (n < 0xd800 || (0xe000 ≤ n && n < 0x110000)) then
    some (Char.ofNat n, t.drop count)
  else none

/-- The character of a short escape. -/
def shortEscape? (c : Char) : Option Char :=
  match c with
  | 'b' => some (Char.ofNat 0x08)
  | 't' => some '\t'
  | 'n' => some '\n'
  | 'f' => some (Char.ofNat 0x0c)
  | 'r' => some '\r'
  | '"' => some '"'
  | '\\' => some '\\'
  | _ => none

/-- An escape, behind its backslash. -/
def takeEscape? : Text → Option (Char × Text)
  | 'u' :: t => takeCharacter? 4 t
  | 'U' :: t => takeCharacter? 8 t
  | c :: t => (shortEscape? c).map fun e => (e, t)
  | [] => none

/-- What follows a line end that is escaped by a backslash: the blanks of the next lines are dropped too. -/
def dropLineEnd? (t : Text) : Option Text :=
  match dropBlanks t with
  | '\n' :: rest => some (dropSpace rest)
  | _ => none

/-- A basic quotation, behind its opening quote. Every step takes a character, so as many steps as there are
characters suffice. -/
def readBasic (lines : Bool) : (steps : Nat) → Text → Except Fault (Text × Text)
  | 0, _ | _, [] => .error .malformed
  | n + 1, '\\' :: t =>
    match if lines then dropLineEnd? t else none with
    | some rest => readBasic lines n rest
    | none =>
      match takeEscape? t with
      | some (c, rest) => (readBasic lines n rest).map fun (s, rest) => (c :: s, rest)
      | none => .error .malformed
  | n + 1, '"' :: t =>
    if !lines then .ok ([], t)
    else match t with
      | '"' :: '"' :: rest => .ok ([], rest)
      | _ => (readBasic lines n t).map fun (s, rest) => ('"' :: s, rest)
  | n + 1, c :: t =>
    if (if lines then isControlInLines c else isControl c) then .error .malformed
    else (readBasic lines n t).map fun (s, rest) => (c :: s, rest)

/-- Up to two more closing quotes belong to the text. -/
def takeClosing (q : Char) (r : Text × Text) : Text × Text :=
  match r.2 with
  | a :: b :: t => if a = q then if b = q then (r.1 ++ [q, q], t) else (r.1 ++ [q], b :: t) else r
  | [a] => if a = q then (r.1 ++ [q], []) else r
  | [] => r

/-- A quotation over lines leaves out a line feed right behind its opening. -/
def dropFirstBreak : Text → Text
  | '\n' :: t => t
  | t => t

/-- A quoted text that may go over lines; none when no quote stands here. -/
def readQuoted? : Text → Option (Except Fault (Text × Text))
  | '"' :: '"' :: '"' :: t => some ((readBasic true t.length (dropFirstBreak t)).map (takeClosing '"'))
  | '"' :: t => some (readBasic false t.length t)
  | '\'' :: '\'' :: '\'' :: t => some ((readLiteralLines (dropFirstBreak t)).map (takeClosing '\''))
  | '\'' :: t => some (readLiteral t)
  | _ => none

end Trellis.Toml
