import Trellis.Line
import Trellis.Number
import Trellis.Text.Word

/-!
# Property values

A value is static when it is exactly one literal: a string in single or double quotes, a numeral, `true` or
`false`. Everything else is an expression. The decision is made on the tokens of the value, so quotes and
operators inside a string do not count.

`scan` is lossless up to blanks: each `take…` function splits its text into what it took and the rest.
-/

namespace Trellis.Value

/-- The kinds of tokens of an expression. -/
inductive TokenKind where
  | string
  | template
  | number
  | identifier
  | punct
  | unterminated
  deriving DecidableEq, Repr

/-- A token and the text it covers. -/
structure Token where
  kind : TokenKind
  text : Text
  deriving DecidableEq, Repr

/-- What follows an opening quote `q`: the text up to and with the closing quote, and the rest. A backslash
protects the next character. -/
def takeQuoted? (q : Char) : Text → Option (Text × Text)
  | [] => none
  | c :: t =>
    if c = q then some ([c], t)
    else if c = '\\' then
      match t with
      | [] => none
      | d :: t' => (takeQuoted? q t').map fun (b, r) => (c :: d :: b, r)
    else (takeQuoted? q t).map fun (b, r) => (c :: b, r)

theorem takeQuoted?_append {q : Char} {t b r : Text} (h : takeQuoted? q t = some (b, r)) :
    t = b ++ r := by
  fun_induction takeQuoted? q t generalizing b r with
  | case1 => simp at h
  | case2 => simp at h; obtain ⟨rfl, rfl⟩ := h; rfl
  | case3 => simp at h
  | case4 d t' _ ih =>
    obtain ⟨⟨b', r'⟩, h', e⟩ := Option.map_eq_some_iff.1 h
    simp only [Prod.mk.injEq] at e
    obtain ⟨rfl, rfl⟩ := e
    simp [ih h']
  | case5 c t _ _ ih =>
    obtain ⟨⟨b', r'⟩, h', e⟩ := Option.map_eq_some_iff.1 h
    simp only [Prod.mk.injEq] at e
    obtain ⟨rfl, rfl⟩ := e
    simp [ih h']

/-- The token at the start of a text whose first character `c` is not blank, and the rest. -/
def takeToken (c : Char) (t : Text) : Token × Text :=
  if isQuote c then
    match takeQuoted? c t with
    | none => (⟨.unterminated, c :: t⟩, [])
    | some (b, r) => (⟨if c = '`' then .template else .string, c :: b⟩, r)
  else match Numeral.take? (c :: t) with
    | some (n, r) => (⟨.number, n⟩, r)
    | none =>
      match Text.takeName? (c :: t) with
      | some (n, r) => (⟨.identifier, n⟩, r)
      | none => (⟨.punct, [c]⟩, t)

theorem takeToken_append (c : Char) (t : Text) :
    (takeToken c t).1.text ++ (takeToken c t).2 = c :: t := by
  unfold takeToken
  split
  · split
    · simp
    · rename_i h
      simp [takeQuoted?_append h]
  · split
    · rename_i h
      exact (Numeral.take?_append h).symm
    · split
      · rename_i h
        exact (Text.takeName?_append h).symm
      · simp

theorem takeToken_ne_nil (c : Char) (t : Text) : (takeToken c t).1.text ≠ [] := by
  unfold takeToken
  split
  · split <;> simp
  · split
    · rename_i h
      exact Numeral.take?_ne_nil h
    · split
      · rename_i h
        exact Text.takeName?_ne_nil h
      · simp

theorem takeToken_rest_lt (c : Char) (t : Text) : (takeToken c t).2.length < (c :: t).length := by
  have h := congrArg List.length (takeToken_append c t)
  have := List.length_pos_iff.2 (takeToken_ne_nil c t)
  simp only [List.length_append] at h
  omega

/-- The tokens of an expression, in order; blanks between them are skipped. -/
def scan : Text → List Token
  | [] => []
  | c :: t =>
    if Text.isBlank c then scan t
    else (takeToken c t).1 :: scan (takeToken c t).2
termination_by t => t.length
decreasing_by
  · simp
  · exact takeToken_rest_lt c t

/-- The text is exactly one static literal. -/
def isLiteral (t : Text) : Bool :=
  Numeral.isNumeral t ||
  match scan t with
  | [⟨.string, _⟩] | [⟨.number, _⟩] => true
  | [⟨.identifier, v⟩] => v = "true" || v = "false"
  | _ => false

/-- The text without one pair of equal quotes around it, if it has one. -/
def unquote (t : Text) : Text :=
  match t with
  | q :: r =>
    match r.getLast? with
    | some e => if isQuote q && q = e then r.dropLast else t
    | none => t
  | [] => t

/-- A classified value: absent, a literal without its quotes, or an expression. -/
inductive Class where
  | flag
  | static (value : Text)
  | dynamic (expr : Text)
  deriving DecidableEq, Repr

/-- Classifies the text of a property value. -/
def classify (raw : Text) : Class :=
  match Text.trim raw with
  | [] => .flag
  | t => if isLiteral t then .static (unquote t) else .dynamic t

end Trellis.Value
