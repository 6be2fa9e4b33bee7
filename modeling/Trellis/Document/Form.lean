import Trellis.Document.Basic

/-!
# The forms of declaration lines

Each function reads the text after a leader, trimmed, and gives the parts of the declaration, or nothing when
the text does not have the form.
-/

namespace Trellis.Form

/-- `[type] name = value`. The type is a word, `any` when it is left out. -/
def state? (t : Text) : Option (Text × Text × Text) :=
  let named (t : Text) : Option (Text × Text) := do
    let (name, r) ← Text.takeName? t
    match Text.trimStart r with
    | '=' :: v => let value := Text.trim v; if value.isEmpty then none else some (name, value)
    | _ => none
  let typed : Option (Text × Text × Text) := do
    let type := t.takeWhile Text.isWord
    let r := t.dropWhile Text.isWord
    if type.isEmpty || !(r.head?.map Text.isBlank).getD false then none
    else (named (Text.trimStart r)).map fun (name, value) => (type, name, value)
  match typed with
  | some r => some r
  | none => (named t).map fun (name, value) => ("any", name, value)

/-- The trimmed pieces between commas that are not empty. -/
def parameters (t : Text) : List Text :=
  ((Text.splitAt ',' t).map Text.trim).filter (!·.isEmpty)

/-- `name(param, …)`, with an optional colon. The parameters end at the last closing parenthesis. -/
def function? (t : Text) : Option (Text × List Text) := do
  let (name, r) ← Text.takeName? t
  match Text.trimStart r with
  | '(' :: r =>
    let (inside, rest) ← Text.cutLast? ')' r
    match Text.trimStart rest with
    | [] | [':'] => some (name, parameters inside)
    | _ => none
  | _ => none

/-- `Name: url`. Quotes of the url are dropped. -/
def service? (t : Text) : Option (Text × Text) := do
  let (name, r) ← Text.takeName? t
  match Text.trimStart r with
  | ':' :: url =>
    let url := Text.trim url
    if url.isEmpty then none else some (name, Text.trim (url.filter (!isQuote ·)))
  | _ => none

/-- `Name: port`, where the port may be missing. -/
def server? (t : Text) : Option (Text × Option Text) := do
  let (name, r) ← Text.takeName? t
  match Text.trimStart r with
  | [] => some (name, none)
  | ':' :: port =>
    let port := Text.trim port
    some (name, if port.isEmpty then none else some port)
  | _ => none

/-- `Source as alias`. -/
def aliasOf? (t : Text) : Option (Text × Text) := do
  let (source, r) ← Text.dottedName? t
  match Text.words r with
  | [word, name] =>
    if word = "as" && Text.isName name && (r.head?.map Text.isBlank).getD false then some (source, name)
    else none
  | _ => none

/-- What follows `in` and a blank, after leading blanks. -/
def afterIn? (t : Text) : Option Text := do
  let r ← Text.after? "in" (Text.trimStart t)
  let c ← r.head?
  if Text.isBlank c then some (Text.trim r) else none

/-- The text before the first blank that is followed by `in` and a blank, and the text after it. The first
character is always taken. -/
def cutIn? : Text → Option (Text × Text)
  | [] => none
  | c :: t =>
    let here := match t with
      | d :: _ => if Text.isBlank d then afterIn? t else none
      | [] => none
    match here with
    | some r => some ([c], r)
    | none => (cutIn? t).map fun (a, b) => (c :: a, b)

/-- `item in items` or `item, index in items`. -/
def loop? (t : Text) : Option (Text × Option Text × Text) := do
  let (bindings, collection) ← cutIn? t
  match (Text.splitAt ',' bindings).map Text.trim with
  | [item] => if Text.isName item then some (item, none, collection) else none
  | [item, index] => if Text.isName item && Text.isName index then some (item, some index, collection) else none
  | _ => none

/-- `?name`. -/
def smartParam? : Text → Option Text
  | '?' :: name => if Text.isName name then some name else none
  | _ => none

/-- The names after the colons of a path. -/
def pathParams : Text → List Text
  | [] => []
  | ':' :: t =>
    match t.takeWhile Text.isWord with
    | [] => pathParams t
    | name => name :: pathParams t
  | _ :: t => pathParams t

/-- `name /path [?param …]`. -/
def route? (t : Text) : Option (Text × Text × List Text) :=
  match Text.words t with
  | name :: path :: smart => do
    if Text.isName name && path.head? = some '/' then
      let params ← smart.mapM smartParam?
      return (name, path, params)
    else none
  | _ => none

/-- `verb name path [?param …]`; the verb may be written in capitals. -/
def serviceMethod? (t : Text) : Option (Verb × Text × Text × List Text) :=
  match Text.words t with
  | verb :: name :: path :: smart => do
    let verb ← Verb.ofName? (Text.lower verb)
    if Text.isName name then
      let params ← smart.mapM smartParam?
      return (verb, name, path, params)
    else none
  | _ => none

/-- An element name: an ASCII capital and word characters. -/
def isElement : Text → Bool
  | [] => false
  | c :: t => Text.isAsciiUpper c && t.all Text.isWord

/-- A property key: an ASCII letter or underscore, then word characters and hyphens. -/
def isKey : Text → Bool
  | [] => false
  | c :: t => (Text.isAsciiLetter c || c = '_') && t.all fun d => Text.isWord d || d = '-'

/-- `key` or `key: value`, both trimmed. -/
def property? (t : Text) : Option (Text × Option Text) :=
  let (key, value) := match Text.cut? ':' t with
    | none => (Text.trim t, none)
    | some (key, value) => (Text.trim key, some (Text.trim value))
  if isKey key then some (key, value) else none

end Trellis.Form
