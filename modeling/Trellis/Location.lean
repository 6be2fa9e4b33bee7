import Trellis.Text.Blank

/-!
# Locations and spans

Lines and columns count from one. A location is a point of a source, a span a range of columns of one
line whose end is exclusive.
-/

namespace Trellis

/-- A point of a source. -/
structure Location where
  line : Int
  column : Int := 1
  filename : Option Text := none
  deriving DecidableEq, Repr

/-- `file:line:column`, without the file when it has no name. -/
def Location.toText (l : Location) : Text :=
  let point := Text.ofInt l.line ++ ":" ++ Text.ofInt l.column
  match l.filename with
  | none | some [] => point
  | some f => f ++ ":" ++ point

/-- The name shown for a source without a file name. -/
def unnamedSource : Text := "<input>"

/-- The file name to show: a missing or empty one is `<input>`. -/
def shownFilename : Option Text → Text
  | none | some [] => unnamedSource
  | some f => f

/-- A range of columns of one line. -/
structure Span where
  line : Int
  startCol : Int
  endCol : Int
  filename : Text := unnamedSource
  deriving DecidableEq, Repr

namespace Span

/-- The span of the trimmed text of a line, never empty. -/
def ofLine (line : Int) (raw : Text) (filename : Option Text) : Span :=
  let text := Text.trimEnd raw
  let start : Int := text.length - (Text.trimStart text).length + 1
  ⟨line, start, max (start + 1) (text.length + 1), shownFilename filename⟩

/-- The number of columns, at least one. -/
def length (s : Span) : Int := max 1 (s.endCol - s.startCol)

def toText (s : Span) : Text :=
  s.filename ++ ":" ++ Text.ofInt s.line ++ ":" ++ Text.ofInt s.startCol

end Span

end Trellis
