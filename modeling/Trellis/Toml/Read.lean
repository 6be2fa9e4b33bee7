import Trellis.Text.Lines
import Trellis.Toml.Quoted

/-!
# Settings files

A settings file is a sequence of lines: a pair of key and value, the header of a table, the header of one more table
of an array, a comment, or nothing. Nothing is defined twice: a header opens a table once, a table made by a dotted
key is closed to headers and to dotted keys once its section ends, and inline arrays and tables cannot be extended.
-/

namespace Trellis.Toml

/-- A character of a key that is not quoted. -/
def isBare (c : Char) : Bool :=
  let n := c.toNat
  (0x30 ≤ n && n ≤ 0x39) || (0x41 ≤ n && n ≤ 0x5a) || (0x61 ≤ n && n ≤ 0x7a) || c = '-' || c = '_'

def readPart (t : Text) : Except Fault (Text × Text) :=
  match t with
  | '"' :: rest => readBasic false rest.length rest
  | '\'' :: rest => readLiteral rest
  | _ =>
    let part := t.takeWhile isBare
    if part.isEmpty then .error .malformed else .ok (part, t.drop part.length)

/-- A dotted key, with the blanks behind it. -/
def readKey : (steps : Nat) → Text → Except Fault (Key × Text)
  | 0, _ => .error .malformed
  | n + 1, t => do
    let (part, t) ← readPart t
    match dropBlanks t with
    | '.' :: t =>
      let (key, t) ← readKey n (dropBlanks t)
      return (part :: key, t)
    | t => return ([part], t)

/-- The rest of a line behind a comment, which holds no control character. -/
def dropComment (t : Text) : Except Fault Text :=
  match t with
  | '#' :: rest =>
    let comment := rest.takeWhile (· ≠ '\n')
    if comment.any isControl then .error .malformed else .ok (rest.drop comment.length)
  | _ => .ok t

/-- Blanks, line feeds and comments dropped. -/
def dropFiller : (steps : Nat) → Text → Except Fault Text
  | 0, t => .ok t
  | n + 1, t =>
    match dropSpace t with
    | '#' :: rest => do dropFiller n (← dropComment ('#' :: rest))
    | t => .ok t

/-- The keys under which an inline table holds an array or a table: they cannot be extended. -/
def isSealed (sealedKeys : List Key) (key : Key) : Bool := sealedKeys.any fun s => s.isPrefixOf key

mutual

def readValue : (steps : Nat) → Text → Except Fault (Value × Text)
  | 0, _ => .error .malformed
  | n + 1, t =>
    match readQuoted? t with
    | some r => r.map fun (s, rest) => (.text s, rest)
    | none =>
      match t with
      | 't' :: 'r' :: 'u' :: 'e' :: rest => .ok (.flag true, rest)
      | 'f' :: 'a' :: 'l' :: 's' :: 'e' :: rest => .ok (.flag false, rest)
      | '[' :: rest => (readItems n rest).map fun (items, rest) => (.array items, rest)
      | '\x7b' :: rest =>
        match dropBlanks rest with
        | '\x7d' :: rest => .ok (.table [], rest)
        | rest => (readPairs n [] [] rest).map fun (entries, rest) => (.table entries, rest)
      | _ => readScalar t

/-- The items of an array up to its closing bracket. -/
def readItems : (steps : Nat) → Text → Except Fault (List Value × Text)
  | 0, _ => .error .malformed
  | n + 1, t => do
    match ← dropFiller t.length t with
    | ']' :: rest => return ([], rest)
    | t =>
      let (v, t) ← readValue n t
      match ← dropFiller t.length t with
      | ']' :: rest => return ([v], rest)
      | ',' :: rest =>
        let (vs, rest) ← readItems n rest
        return (v :: vs, rest)
      | _ => .error .malformed

/-- The pairs of an inline table up to its closing brace. -/
def readPairs : (steps : Nat) → (sealedKeys : List Key) → Table → Text → Except Fault (Table × Text)
  | 0, _, _, _ => .error .malformed
  | n + 1, sealedKeys, table, t => do
    let (key, t) ← readKey t.length t
    match t with
    | '=' :: t =>
      let (v, t) ← readValue n (dropBlanks t)
      if isSealed sealedKeys key then .error .malformed
      else
        match table.update? false (Table.insert? (key.getLastD []) v) key.dropLast with
        | none => .error .malformed
        | some table =>
          match dropBlanks t with
          | '\x7d' :: rest => return (table, rest)
          | ',' :: rest =>
            readPairs n (if v.isContainer then key :: sealedKeys else sealedKeys) table (dropBlanks rest)
          | _ => .error .malformed
    | _ => .error .malformed

end

/-- A file that is being read: its entries, the header in force, the keys that a header or a dotted key may not open
any more, those that close at the next header, and the inline values. -/
structure Reading where
  root : Table := []
  header : Key := []
  opened : List Key := []
  pending : List Key := []
  sealedKeys : List Key := []

namespace Reading

/-- What a dotted key makes is closed when the next header comes. -/
def settle (s : Reading) : Reading := { s with opened := s.pending ++ s.opened, pending := [] }

/-- The header of a table. -/
def openTable (s : Reading) (key : Key) : Except Fault Reading :=
  if s.opened.contains key || isSealed s.sealedKeys key then .error .malformed
  else
    match s.root.update? true some key with
    | none => .error .malformed
    | some root => .ok { s with root := root, header := key, opened := key :: s.opened }

/-- The header of one more table of an array; what was said about the table before it is forgotten. -/
def openItem (s : Reading) (key : Key) : Except Fault Reading :=
  if isSealed s.sealedKeys key then .error .malformed
  else
    match s.root.update? true (Table.appendTable? (key.getLastD [])) key.dropLast with
    | none => .error .malformed
    | some root =>
      .ok
        { s with
          root := root
          header := key
          opened := key :: s.opened.filter fun k => !key.isPrefixOf k
          sealedKeys := s.sealedKeys.filter fun k => !key.isPrefixOf k }

/-- The tables that a dotted key makes on its way, under the header in force. -/
def waypoints (s : Reading) (key : Key) : List Key :=
  (List.range (key.length - 1)).map fun i => s.header ++ key.take (i + 1)

def addPair (s : Reading) (key : Key) (v : Value) : Except Fault Reading :=
  let way := s.waypoints key
  let parent := s.header ++ key.dropLast
  if way.any s.opened.contains || isSealed s.sealedKeys parent then .error .malformed
  else
    match s.root.update? true (Table.insert? (key.getLastD []) v) parent with
    | none => .error .malformed
    | some root =>
      .ok
        { s with
          root := root
          pending := way ++ s.pending
          sealedKeys := if v.isContainer then (s.header ++ key) :: s.sealedKeys else s.sealedKeys }

/-- What a line says, and the rest of that line. -/
def readStatement (s : Reading) (t : Text) : Except Fault (Reading × Text) :=
  match t with
  | '[' :: '[' :: t => do
    let (key, t) ← readKey t.length (dropBlanks t)
    let s ← s.settle.openItem key
    match t with
    | ']' :: ']' :: t => return (s, t)
    | _ => .error .malformed
  | '[' :: t => do
    let (key, t) ← readKey t.length (dropBlanks t)
    let s ← s.settle.openTable key
    match t with
    | ']' :: t => return (s, t)
    | _ => .error .malformed
  | _ => do
    let (key, t) ← readKey t.length t
    match t with
    | '=' :: t =>
      let t := dropBlanks t
      let (v, t) ← readValue (2 * t.length + 1) t
      return (← s.addPair key v, t)
    | _ => .error .malformed

def readLines : (steps : Nat) → Reading → Text → Except Fault Reading
  | 0, s, _ => .ok s
  | n + 1, s, t =>
    match dropBlanks t with
    | [] => .ok s
    | '\n' :: t => readLines n s t
    | c :: t => do
      let (s, t) ← if c = '#' then pure (s, c :: t) else s.readStatement (c :: t)
      match ← dropComment (dropBlanks t) with
      | [] => return s
      | '\n' :: t => readLines n s t
      | _ => .error .malformed

end Reading

/-- A carriage return right before a line feed is dropped. -/
def joinBreaks : Text → Text
  | [] => []
  | '\r' :: '\n' :: t => '\n' :: joinBreaks t
  | c :: t => c :: joinBreaks t

/-- The table that a settings file describes. -/
def read (t : Text) : Except Fault Table :=
  let t := joinBreaks t
  (Reading.readLines (t.length + 1) {} t).map (·.root)

end Trellis.Toml
