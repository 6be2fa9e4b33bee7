import Trellis.Line
import Trellis.Text.Word

/-!
# State access

State variables are held in cells, so a bare use of a state name becomes `name.value`. Quoted strings are left
alone, and of a template string only the interpolations are looked at. A name is a bare use when it is not part
of a longer name, not a member of something, and not already followed by `.value`.
-/

namespace Trellis.Code

/-- What follows an opening quote `q`: the text up to and with the closing quote, and the rest. A backslash
protects the next character, which may not be a line feed. -/
def takeString? (q : Char) : Text → Option (Text × Text)
  | [] => none
  | c :: t =>
    if c = q then some ([c], t)
    else if c = '\\' then
      match t with
      | [] => none
      | d :: t' => if d = '\n' then none else (takeString? q t').map fun (b, r) => (c :: d :: b, r)
    else (takeString? q t).map fun (b, r) => (c :: b, r)

theorem takeString?_append {q : Char} {t b r : Text} (h : takeString? q t = some (b, r)) :
    t = b ++ r := by
  fun_induction takeString? q t generalizing b r with
  | case1 => simp at h
  | case2 => simp at h; obtain ⟨rfl, rfl⟩ := h; rfl
  | case3 => simp at h
  | case4 => simp at h
  | case5 d t' _ _ ih =>
    obtain ⟨⟨b', r'⟩, h', e⟩ := Option.map_eq_some_iff.1 h
    simp only [Prod.mk.injEq] at e
    obtain ⟨rfl, rfl⟩ := e
    simp [ih h']
  | case6 c t _ _ ih =>
    obtain ⟨⟨b', r'⟩, h', e⟩ := Option.map_eq_some_iff.1 h
    simp only [Prod.mk.injEq] at e
    obtain ⟨rfl, rfl⟩ := e
    simp [ih h']

/-- A text cut at its quoted strings: the code before the first, then each string with the code behind it. -/
structure Segments where
  code : Text
  strings : List (Text × Text)
  deriving DecidableEq, Repr

/-- A text cut at its quoted strings. A quote that is never closed is code. -/
def segments (t : Text) : Segments :=
  match t with
  | [] => ⟨[], []⟩
  | c :: r =>
    if isQuote c then
      match h : takeString? c r with
      | some (b, rest) =>
        have := congrArg List.length (takeString?_append h)
        let s := segments rest
        ⟨[], (c :: b, s.code) :: s.strings⟩
      | none => let s := segments r; ⟨c :: s.code, s.strings⟩
    else let s := segments r; ⟨c :: s.code, s.strings⟩
termination_by t.length
decreasing_by
  · simp only [List.length_append, List.length_cons] at this ⊢
    omega
  all_goals simp

/-- `.value` follows, as a whole member name. -/
def hasValue (t : Text) : Bool :=
  match Text.after? ".value" t with
  | some r => !(r.head?.map Text.isWord).getD false
  | none => false

/-- Nothing behind a name makes it other than a bare use. -/
def endsBare (rest : Text) : Bool := !(rest.head?.map Text.isNamePart).getD false && !hasValue rest

/-- The first of the names that stands at the start of a text as a bare use. -/
def nameAt? (names : List Text) (t : Text) : Option Text :=
  names.find? fun n =>
    match Text.after? n t with
    | some rest => endsBare rest
    | none => false

/-- A bare use can start behind this character. -/
def startsBare : Option Char → Bool
  | none => true
  | some c => !(Text.isNamePart c || c = '.')

/-- Writes `.value` behind every bare use in a piece of code; `previous` is the character before it. The empty
name is used between any two characters. -/
def accessCode (names : List Text) (previous : Option Char) (t : Text) : Text :=
  let used := if startsBare previous then nameAt? names t else none
  match t with
  | [] => if used.isSome then ".value" else []
  | c :: r =>
    match used with
    | some (a :: n) =>
      (a :: n) ++ ".value" ++ accessCode names (a :: n).getLast? ((c :: r).drop (n.length + 1))
    | some [] => ".value" ++ c :: accessCode names (some c) r
    | none => c :: accessCode names (some c) r
termination_by t.length
decreasing_by
  · simp only [List.length_drop, List.length_cons]; omega
  all_goals simp

/-- A character that is no brace. -/
def isPlain (c : Char) : Bool := c ≠ '\x7b' && c ≠ '\x7d'

/-- Writes `.value` behind every bare use in the interpolations of a template string. -/
def accessTemplate (names : List Text) (t : Text) : Text :=
  match t with
  | [] => []
  | '$' :: '\x7b' :: r =>
    match h : r.dropWhile isPlain with
    | '\x7d' :: rest =>
      have := congrArg List.length h
      "$\x7b" ++ accessCode names none (r.takeWhile isPlain) ++ "\x7d" ++ accessTemplate names rest
    | _ => '$' :: accessTemplate names ('\x7b' :: r)
  | c :: r => c :: accessTemplate names r
termination_by t.length
decreasing_by
  · have := (List.dropWhile_sublist (l := r) isPlain).length_le
    simp only [List.length_cons] at *
    omega
  all_goals simp

/-- A quoted string: only a template string is looked into. -/
def accessString (names : List Text) (t : Text) : Text :=
  if t.head? = some '`' then accessTemplate names t else t

/-- The names from the longest to the shortest. -/
def longestFirst (names : List Text) : List Text := names.mergeSort fun a b => b.length ≤ a.length

/-- The text with every bare use of a state name turned into `name.value`; longer names are tried first. -/
def accessState (names : List Text) (t : Text) : Text :=
  if names.isEmpty then t
  else
    let sorted := longestFirst names
    let s := segments t
    accessCode sorted none s.code ++
      s.strings.flatMap fun (string, code) => accessString sorted string ++ accessCode sorted none code

end Trellis.Code
