import Trellis.Text.Blank
import Trellis.Text.Word

/-!
# Awaiting calls

A call through a dotted name is taken to be asynchronous, unless its first name is a global object or its last
name a method known to be synchronous. `insertAwaits` writes `await` in front of every such call that does not
already follow `await` or `new`.
-/

namespace Trellis.Code

/-- Methods of arrays that never need an await. -/
def arrayMethods : List Text :=
  ["push", "pop", "shift", "unshift", "splice", "slice", "concat", "join",
    "map", "filter", "reduce", "reduceRight", "find", "findIndex", "findLast",
    "some", "every", "includes", "indexOf", "lastIndexOf", "forEach", "sort",
    "reverse", "flat", "flatMap", "fill", "at", "keys", "values", "entries"]

/-- Methods of strings, numbers and events that never need an await. -/
def valueMethods : List Text :=
  ["toString", "toFixed", "trim", "trimStart", "trimEnd", "split", "replace",
    "replaceAll", "toUpperCase", "toLowerCase", "startsWith", "endsWith",
    "substring", "padStart", "padEnd", "repeat", "charAt", "match",
    "preventDefault", "stopPropagation", "focus", "blur"]

/-- Methods that never need an await. -/
def syncMethods : List Text := arrayMethods ++ valueMethods

/-- Objects whose methods never need an await. -/
def syncGlobals : List Text :=
  ["console", "Math", "JSON", "Object", "Array", "Number", "String", "Date",
    "window", "document", "localStorage", "sessionStorage"]

/-- The names of the dotted call at the start of a text: at least two, then an opening parenthesis. -/
def dottedCall? (t : Text) : Option (List Text) := do
  let (path, rest) ← Text.dottedName? t
  if path.contains '.' && (Text.trimStart rest).head? = some '(' then some (Text.splitAt '.' path) else none

/-- A dotted call that may have to be awaited stands at the start of a text. -/
def isAsyncCall (t : Text) : Bool :=
  match dottedCall? t with
  | none => false
  | some names => !syncGlobals.contains (names.headD []) && !syncMethods.contains (names.getLastD [])

/-- A name cannot start behind this character: it would continue a name or select a member. -/
def joinsName (c : Char) : Bool := Text.isNamePart c || c = '.'

/-- The text read so far, last character first, ends with `await` or `new`, apart from blanks. -/
def isAwaited (before : Text) : Bool :=
  let b := Text.trimStart before
  Text.startsWith b "tiawa" || Text.startsWith b "wen"

/-- An `await` is missing between `before`, last character first, and `t`. -/
def needsAwait (before t : Text) : Bool :=
  !(before.head?.map joinsName).getD false && isAsyncCall t && !isAwaited before

/-- `t` with the missing awaits, and whether there were any; `before` is the text in front of it, last character
first. -/
def insertAwaitsFrom (before : Text) : Text → Text × Bool
  | [] => ([], false)
  | c :: t =>
    let (rest, changed) := insertAwaitsFrom (c :: before) t
    if needsAwait before (c :: t) then ("await " ++ c :: rest, true) else (c :: rest, changed)

/-- The text with an `await` before every call that needs one, and whether there was any. -/
def insertAwaits (t : Text) : Text × Bool := insertAwaitsFrom [] t

end Trellis.Code
