import Trellis.Compile

/-!
# Editor diagnostics

What an editor shows for a source: every diagnostic of a lenient compilation, then the failure of the generator,
if any. Editors count lines and characters from zero.
-/

namespace Trellis.Editor

/-- A range of characters of one line. -/
structure Range where
  line : Int
  start : Int
  stop : Int
  deriving DecidableEq, Repr

/-- A diagnostic as an editor shows it. -/
structure Notice where
  range : Range
  message : Text
  level : Level
  code : Option Text
  deriving DecidableEq, Repr

/-- The name editors show as the origin of a notice. -/
def noticeSource : Text := "yggdra"

/-- From `start` to `stop`, never backwards. -/
def Range.between (line start stop : Int) : Range := ⟨line, start, max start stop⟩

/-- From `start` to the end of the text of the line, at least one character. -/
def Range.toLineEnd (lines : List Text) (line start : Int) : Range :=
  let text := if 0 ≤ line then lines.getD line.toNat [] else []
  .between line start (max (start + 1) (Text.trimEnd text).length)

/-- The range of a diagnostic. -/
def rangeOf (lines : List Text) (d : Diagnostic) : Range :=
  match d.span? with
  | some s => .between (max 0 (s.line - 1)) (max 0 (s.startCol - 1)) (max 0 (s.endCol - 1))
  | none => .toLineEnd lines 0 0

/-- The message of a diagnostic with its helps below. -/
def messageOf (d : Diagnostic) : Text := d.message ++ d.helps.flatMap fun h => ("\nhelp: " : Text) ++ h

/-- A diagnostic as a notice. -/
def Notice.ofDiagnostic (lines : List Text) (d : Diagnostic) : Notice :=
  ⟨rangeOf lines d, messageOf d, d.level, some d.code⟩

/-- A failure as a notice. -/
def Notice.ofFailure (lines : List Text) (message : Text) (location : Option Location) : Notice :=
  let range := match location with
    | some l => .toLineEnd lines (max 0 (l.line - 1)) (max 0 (l.column - 1))
    | none => .toLineEnd lines 0 0
  ⟨range, message, .error, none⟩

def notices (uri source : Text) : Except DigitFault (List Notice) :=
  let lines := Text.lines source
  (compile (some uri) false source).map fun c =>
    c.diagnostics.map (Notice.ofDiagnostic lines) ++
      c.error.toList.map fun f => Notice.ofFailure lines f.message f.location

end Trellis.Editor
