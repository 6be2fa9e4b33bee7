import Trellis.Command.Machine
import Trellis.Command.Usage
import Trellis.Compile
import Trellis.Config
import Trellis.FileTree.Change

/-!
# Compiling files

Reads a source file, compiles it, shows its diagnostics and writes the result. Nothing is written when the
compilation fails. But a result that has no bytes, because it names an undecodable source, leaves an empty file. With
logging on, the compiler's remarks come before the diagnostics.
-/

namespace Trellis.Command

/-- What a command prints. The error output shows every name with escapes. -/
structure Printed where
  out : Name := []
  err : Text := []
  deriving DecidableEq, Repr

/-- Printed one after the other. -/
def Printed.append (a b : Printed) : Printed := ⟨a.out ++ b.out, a.err ++ b.err⟩

instance : Append Printed := ⟨Printed.append⟩

/-- A line on the output. -/
def onOut (line : Name) : Printed := { out := line ++ Name.ofText "\n" }

/-- A line on the error output. -/
def onErr (line : Text) : Printed := { err := line ++ "\n" }

/-- Lines of the log, which are shown when it is on. -/
def logged (verbose : Bool) (name : Text) (lines : List Text) : Printed :=
  if verbose then { err := lines.flatMap fun l => "DEBUG yggdra." ++ name ++ ": " ++ l ++ "\n" } else {}

/-- The text of a source file, with every line end as a line feed. -/
def readSource (t : FileTree) (p : Path) : Except Fault Text := do
  let bytes ← (t.read p).mapError Fault.file
  let text ← (Utf8.decode bytes).mapError Fault.bytes
  return Text.unifyBreaks text

/-- Where the result goes. An output that is a directory, or has no suffix, receives a file named after the input;
so does the configured directory; otherwise the result stands beside the input. -/
def outputPath (t : FileTree) (input : Path) (suffix : Text) (output outDir : Option Path) : Except Fault Path :=
  let renamed := (input.withSuffix suffix).mapError Fault.suffix
  match output, outDir with
  | some o, _ =>
    match t.look o with
    | .error f => .error (.file f)
    | .ok (some (.directory _)) => do return o.append ⟨[], [(← renamed).name]⟩
    | .ok _ => if o.suffix.isEmpty then do return o.append ⟨[], [(← renamed).name]⟩ else .ok o
  | none, some d => do return d.append ⟨[], [(← renamed).name]⟩
  | none, none => renamed

/-- The diagnostics of a source, each with an empty line behind it. -/
def showDiagnostics (source : Text) (ds : List Diagnostic) : Printed :=
  { err := ds.flatMap fun d => d.render source false ++ "\n\n" }

/-- The line that tells why a compilation failed. -/
def showFailure (f : Failure) : Printed := onErr ("Compilation error: " ++ f.toText)

/-- Compiles a source file, printing its diagnostics and why it failed. -/
def compileFile (t : FileTree) (verbose strict : Bool) (input : Path) : Printed × Except Fault Compilation :=
  match readSource t input with
  | .error f => ({}, .error f)
  | .ok source =>
    let path := some input.toText
    let document := Document.read path source
    let log := logged verbose "compiler" (document.diagnosticLog path)
    match document.compile path strict with
    | .error f => (log, .error (.digits f))
    | .ok c =>
      let failed := match c.error with
        | some f => showFailure f
        | none => {}
      (log ++ logged verbose "compiler" (Document.failureLog path c) ++ showDiagnostics source c.diagnostics ++ failed,
        .ok c)

/-- What became of a file. -/
inductive Result where
  | written (target : Path)
  | failed
  | stopped (fault : Fault)
  deriving DecidableEq, Repr

/-- Writes a result, making the directories it needs. The file is opened, and with this emptied, before the result is
encoded. -/
def store (t : FileTree) (target : Path) (output : Name) : FileTree × Option Fault :=
  match t.tick.makeDirectories target.parent with
  | (t, some f) => (t, some (.file f))
  | (t, none) =>
    match output.encode with
    | .ok bytes =>
      match t.write target bytes with
      | .ok t => (t, none)
      | .error f => (t, some (.file f))
    | .error stray =>
      match t.write target [] with
      | .ok t => (t, some (.encoding stray))
      | .error f => (t, some (.file f))

/-- The path of an output that is asked for, for a need. -/
def askedPath (need : Need) : Option (Setting Path) → Except Need (Option Path)
  | none => .ok none
  | some s => (s.valueFor need).map some

/-- Where the result of a file goes, when the output that is asked for may be blank. -/
def target (t : FileTree) (config : Config) (input : Path) (suffix : Text) (output : Option (Setting Path)) :
    Except Fault Path := do
  let output ← (askedPath .directory output).mapError Fault.blank
  outputPath t input suffix output config.outDir

/-- Compiles a file and writes the result. -/
def compileToFile (t : FileTree) (config : Config) (verbose strict : Bool) (output : Option (Setting Path))
    (input : Path) : FileTree × Printed × Result :=
  match compileFile t verbose (strict || config.strict) input with
  | (printed, .error f) => (t, printed, .stopped f)
  | (printed, .ok c) =>
    if !c.success then (t, printed, .failed)
    else
      match target t config input c.suffix output with
      | .error f => (t, printed, .stopped f)
      | .ok target =>
        match store t target (c.written input.name) with
        | (t, some f) => (t, printed, .stopped f)
        | (t, none) => (t, printed ++ logged verbose "cli" ["wrote " ++ target.toText], .written target)

end Trellis.Command
