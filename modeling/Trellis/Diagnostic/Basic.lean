import Trellis.Location
import Trellis.Text.Lines

/-!
# Diagnostics

A diagnostic says what is wrong, where, and how to mend it. `render` shows it with the source line and a row
of carets below, as long as the span. The bar before the carets is not moved along with the number of the line,
so the carets start to the left of the span:

    error[E0202]: malformed state declaration
      --> App.ygg:3:1
       |
      3 | state = 5
       | ^^^^^^^^^
       |
       = help: expected 'state [type] name = value'
-/

namespace Trellis

/-- How serious a diagnostic is. -/
inductive Level where
  | error
  | warning
  deriving DecidableEq, Repr

def Level.name : Level → Text
  | .error => "error"
  | .warning => "warning"

/-- A report about a source; the first span is where it is, further ones are also shown. -/
structure Diagnostic where
  code : Text
  level : Level
  message : Text
  text : Text := []
  spans : List Span := []
  helps : List Text := []
  deriving DecidableEq, Repr

/-- A terminal colour switch, or nothing without colour. -/
def paint (color : Bool) (code : Text) : Text := if color then "\x1b[" ++ code ++ "m" else []

def Level.color : Level → Text
  | .error => "91"
  | .warning => "93"

/-- An integer, padded on the left to three columns. -/
def gutter (n : Int) : Text :=
  let t := Text.ofInt n
  Text.spaces (3 - t.length) ++ t

namespace Diagnostic

def span? (d : Diagnostic) : Option Span := d.spans.head?

/-- The line it is about, zero when it has no span. -/
def line (d : Diagnostic) : Int := (d.span?.map (·.line)).getD 0

def isError (d : Diagnostic) : Bool := d.level = .error

/-- The source line of a span with its carets; nothing when the source has no such line. -/
def renderSpan (color : Bool) (level : Level) (lines : List Text) (s : Span) : List Text :=
  if 1 ≤ s.line && s.line ≤ lines.length then
    let blue := paint color "94"
    let reset := paint color "0"
    let carets := Text.spaces (s.startCol - 1).toNat ++ List.replicate s.length.toNat '^'
    [blue ++ gutter s.line ++ " |" ++ reset ++ " " ++ lines.getD (s.line - 1).toNat [],
      "   " ++ blue ++ "|" ++ reset ++ " " ++ paint color level.color ++ carets ++ reset]
  else []

def renderHelp (color : Bool) (help : Text) : Text :=
  "   " ++ paint color "94" ++ "=" ++ paint color "0" ++ " " ++ paint color "92" ++ "help:"
    ++ paint color "0" ++ " " ++ help

def renderHead (color : Bool) (d : Diagnostic) : Text :=
  let code : Text := if d.code.isEmpty then [] else "[" ++ d.code ++ "]"
  paint color d.level.color ++ paint color "1" ++ d.level.name ++ code ++ paint color "0" ++ ": "
    ++ paint color "1" ++ d.message ++ paint color "0"

/-- The lines of a rendered diagnostic, with the spans in line order. -/
def renderLines (source : Text) (color : Bool) (d : Diagnostic) : List Text :=
  let lines := Text.lines source
  let bar : Text := "   " ++ paint color "94" ++ "|" ++ paint color "0"
  let arrow : List Text := match d.span? with
    | some s => ["  " ++ paint color "94" ++ "-->" ++ paint color "0" ++ " " ++ s.toText]
    | none => []
  let shown : List Text :=
    if d.spans.isEmpty || lines.isEmpty then []
    else bar :: (d.spans.mergeSort fun a b => a.line ≤ b.line).flatMap (renderSpan color d.level lines)
      ++ [bar]
  renderHead color d :: arrow ++ shown ++ d.helps.map (renderHelp color)

/-- The diagnostic with its source context. -/
def render (source : Text) (color : Bool) (d : Diagnostic) : Text := Text.unlines (renderLines source color d)

/-- Several diagnostics, with an empty line between them. -/
def renderAll (source : Text) (color : Bool) (ds : List Diagnostic) : Text :=
  Text.join "\n\n" (ds.map (render source color))

/-- The one-line form. -/
def summary (d : Diagnostic) : Text :=
  let place : Text := if d.line = 0 then [] else "line " ++ Text.ofInt d.line ++ ": "
  "[" ++ d.code ++ "] " ++ place ++ d.message

def errors (ds : List Diagnostic) : List Diagnostic := ds.filter isError

def warnings (ds : List Diagnostic) : List Diagnostic := ds.filter (!isError ·)

end Diagnostic

end Trellis
