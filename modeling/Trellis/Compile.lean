import Trellis.Component.Generate
import Trellis.Document.Read
import Trellis.ServerModule

/-!
# Compilation

Reads a source and generates its output in one step. A document with a server becomes a server module, any
other one a component. In strict mode a source with errors is refused. Digits that are no number are the only
thing a compilation does not turn into a result.
-/

namespace Trellis

/-- The result of a compilation: output, or a failure. -/
structure Compilation where
  output : Text
  suffix : Text
  diagnostics : List Diagnostic
  error : Option Failure := none
  deriving Repr

namespace Compilation

def success (c : Compilation) : Bool := c.error.isNone

/-- What the output says before the name of its source. -/
def headerLead (c : Compilation) : Text :=
  if c.suffix = (".js" : Text) then ServerModule.headerLead else Component.headerLead

/-- The output as it is written. Where the header shows the name of a source that is no text, it has the name itself. -/
def written (c : Compilation) (name : Name) : Name :=
  if name.isText then c.output
  else c.headerLead ++ name ++ c.output.drop (c.headerLead.length + name.shown.length)

def errors (c : Compilation) : List Diagnostic := Diagnostic.errors c.diagnostics

def warnings (c : Compilation) : List Diagnostic := Diagnostic.warnings c.diagnostics

/-- An error was reported, or there is no output. -/
def hasErrors (c : Compilation) : Bool := !c.errors.isEmpty || !c.success

/-- A truth value in a summary. -/
def yesNo (b : Bool) : Text := if b then "True" else "False"

/-- A short description of the result. At most five errors are listed. -/
def summary (c : Compilation) : Text :=
  let listed := (c.errors.take 5).map fun d => ("    - " : Text) ++ d.summary
  let more : List Text :=
    if c.errors.length > 5 then ["    ... and " ++ Text.ofNat (c.errors.length - 5) ++ " more"] else []
  let errors : List Text :=
    if c.errors.isEmpty then [] else ("  Errors: " ++ Text.ofNat c.errors.length) :: listed ++ more
  let warnings : List Text :=
    if c.warnings.isEmpty then [] else ["  Warnings: " ++ Text.ofNat c.warnings.length]
  let failure : List Text := match c.error with
    | some f => ["  Failure: " ++ f.message]
    | none => []
  let head : List Text := ["Compilation Result:", "  Success: " ++ yesNo c.success]
  let size : List Text := ["  Generated Code: " ++ Text.ofNat c.output.length ++ " characters"]
  Text.unlines (head ++ errors ++ warnings ++ failure ++ size)

end Compilation

namespace Document

/-- The suffix of the generated file. -/
def outputSuffix (d : Document) : Text := if d.script.server.isSome then ".js" else ".vue"

/-- The spaces per level in generated files. -/
def indentSize : Nat := 2

/-- The output of the backend a document calls for. -/
def generate (path : Option Text) (d : Document) : Except GenerateError Text :=
  if d.script.server.isSome then ServerModule.generate path indentSize d
  else .ok (Component.generate path indentSize d)

/-- The failure of a strict compilation: the first error, and how many there are. -/
def strictFailure? (path : Option Text) (diagnostics : List Diagnostic) : Option Failure :=
  match Diagnostic.errors diagnostics with
  | [] => none
  | first :: rest =>
    some
      { kind := .parser
        message := first.message ++ " (" ++ Text.ofNat (rest.length + 1) ++ " error(s) in total)"
        location := first.span?.map fun s => ⟨s.line, s.startCol, path⟩
        sourceLine := if first.text.isEmpty then none else some first.text }

/-- Compiles a document that has been read. -/
def compile (path : Option Text) (strict : Bool) (d : Document) : Except DigitFault Compilation :=
  let failed (f : Failure) : Compilation :=
    { output := [], suffix := d.outputSuffix, diagnostics := d.diagnostics, error := some f }
  match if strict then strictFailure? path d.diagnostics else none with
  | some f => .ok (failed f)
  | none =>
    match d.generate path with
    | .ok output => .ok { output := output, suffix := d.outputSuffix, diagnostics := d.diagnostics }
    | .error (.failed f) => .ok (failed f)
    | .error (.digits fault) => .error fault

/-- What a compilation logs: every diagnostic of the source. -/
def diagnosticLog (path : Option Text) (d : Document) : List Text :=
  d.diagnostics.map fun x => shownFilename path ++ ": " ++ x.summary

/-- What a compilation logs when generation fails. -/
def failureLog (path : Option Text) (c : Compilation) : List Text :=
  match c.error with
  | some f =>
    if f.kind = .generator then ["generation failed for " ++ shownFilename path ++ ": " ++ f.message] else []
  | none => []

end Document

/-- Compiles a source. The path is shown in messages and in the header of the output. -/
def compile (path : Option Text) (strict : Bool) (source : Text) : Except DigitFault Compilation :=
  (Document.read path source).compile path strict

/-- Why `compileText` gives no text. -/
inductive CompileError where
  | failed (failure : Failure)
  | digits (fault : DigitFault)
  deriving DecidableEq, Repr

/-- The output of a compilation, or why there is none. -/
def compileText (path : Option Text) (strict : Bool) (source : Text) : Except CompileError Text :=
  match compile path strict source with
  | .error d => .error (.digits d)
  | .ok c =>
    match c.error with
    | some f => .error (.failed f)
    | none => .ok c.output

end Trellis
