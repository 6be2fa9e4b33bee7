import Trellis.Text.Blank

/-!
# Source lines

What is known of a line before it is classified: its indentation, which of its characters stand inside
quotes, and its text without a trailing comment.
-/

namespace Trellis

/-- The number of leading blanks of a line. -/
def indentOf (raw : Text) : Nat := raw.length - (Text.trimStart raw).length

/-- A double quote, a single quote or a backtick. -/
def isQuote (c : Char) : Bool := c = '"' || c = '\'' || c = '`'

/-- The quote that is open after reading `c`, given the one that was open before. A quote closes only
on the character that opened it. -/
def quoteAfter (opened : Option Char) (c : Char) : Option Char :=
  if isQuote c then
    match opened with
    | none => some c
    | some q => if c = q then none else some q
  else opened

/-- The index of the first `target` outside quotes, where `opened` is the quote open at the start. -/
def findUnquotedFrom (target : Char) (opened : Option Char) : Text → Option Nat
  | [] => none
  | c :: t =>
    if !isQuote c && c = target && opened = none then some 0
    else (findUnquotedFrom target (quoteAfter opened c) t).map (· + 1)

/-- The index of the first `target` outside quotes. -/
def findUnquoted (target : Char) (t : Text) : Option Nat := findUnquotedFrom target none t

/-- The text before a `#` outside quotes, trimmed. -/
def stripComment (t : Text) : Text :=
  match findUnquoted '#' t with
  | some i => Text.trim (t.take i)
  | none => Text.trim t

/-- A captured line of a body: its number, its indentation and the line as written. -/
structure BodyLine where
  line : Int
  indent : Int
  raw : Text
  deriving DecidableEq, Repr

namespace BodyLine

/-- The trimmed line. -/
def text (l : BodyLine) : Text := Text.trim l.raw

def isComment (l : BodyLine) : Bool := l.text.head? = some '#'

/-- The trimmed line without a trailing comment. -/
def code (l : BodyLine) : Text := stripComment l.text

end BodyLine

end Trellis
