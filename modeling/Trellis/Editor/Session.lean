import Trellis.Editor.Outline
import Trellis.Editor.Range
import Trellis.Text.Utf8

/-!
# Editor sessions

An editor opens, changes, saves and closes sources and asks for their outlines. Every opened, changed or saved
source is compiled anew and its notices are published; closing a source publishes that it has none. Sources are
told apart by their addresses with percent escapes undone; the escapes of a run of ASCII characters are read together.
-/

namespace Trellis.Editor

def serverName : Text := "yggdra-lsp"

def serverVersion : Text := "v0.2.0"

/-- What an editor tells the server. -/
inductive Event where
  | initialized
  | shutdown
  | opened (uri text : Text)
  | changed (uri text : Text)
  | saved (uri : Text)
  | closed (uri : Text)
  | outlined (uri : Text)
  deriving DecidableEq, Repr

/-- What the server does in return. -/
structure Reply where
  published : List (Text × List Notice) := []
  symbols : Option (List Symbol) := none
  deriving Repr

/-- The value of a hexadecimal digit. -/
def hexValue? (c : Char) : Option Nat :=
  let n := c.toNat
  if 0x30 ≤ n && n ≤ 0x39 then some (n - 0x30)
  else if 0x41 ≤ n && n ≤ 0x46 then some (n - 0x37)
  else if 0x61 ≤ n && n ≤ 0x66 then some (n - 0x57)
  else none

/-- An ASCII character. -/
def isAscii (c : Char) : Bool := c.toNat < 0x80

/-- The bytes of ASCII characters, with percent escapes undone. -/
def unescape : Text → Bytes
  | [] => []
  | '%' :: a :: b :: t =>
    match hexValue? a, hexValue? b with
    | some x, some y => (16 * x + y).toUInt8 :: unescape t
    | _, _ => 0x25 :: unescape (a :: b :: t)
  | c :: t => c.toNat.toUInt8 :: unescape t

/-- What an address names: the text with percent escapes undone. -/
def address (uri : Text) : Text :=
  match uri with
  | [] => []
  | c :: t =>
    if isAscii c then
      Utf8.decodeLossy (unescape (c :: t.takeWhile isAscii)) ++ address (t.dropWhile isAscii)
    else c :: address t
termination_by uri.length
decreasing_by
  · have := (List.dropWhile_sublist (l := t) isAscii).length_le
    simp only [List.length_cons]; omega
  · simp

/-- The open sources by address. -/
structure Session where
  sources : List (Text × Text) := []

namespace Session

def text? (s : Session) (uri : Text) : Option Text := s.sources.lookup (address uri)

def store (s : Session) (uri text : Text) : Session :=
  { sources := (address uri, text) :: s.sources.filter (·.1 ≠ address uri) }

def forget (s : Session) (uri : Text) : Session :=
  { sources := s.sources.filter (·.1 ≠ address uri) }

/-- Publishes the notices of a source. -/
def validate (uri source : Text) : Except DigitFault Reply :=
  (notices uri source).map fun ns => { published := [(uri, ns)] }

def step (s : Session) : Event → Except DigitFault (Session × Reply)
  | .initialized | .shutdown => .ok (s, {})
  | .opened uri text | .changed uri text => (validate uri text).map fun r => (s.store uri text, r)
  | .saved uri =>
    match s.text? uri with
    | some text => (validate uri text).map fun r => (s, r)
    | none => .ok (s, {})
  | .closed uri => .ok (s.forget uri, { published := [(uri, [])] })
  | .outlined uri => .ok (s, { symbols := (s.text? uri).map (symbols uri) })

def run (s : Session) : List Event → Except DigitFault (List Reply)
  | [] => .ok []
  | e :: es => do
    let (s, r) ← s.step e
    let rs ← s.run es
    return r :: rs

end Session

end Trellis.Editor
