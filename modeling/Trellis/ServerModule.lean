import Trellis.Code.Function
import Trellis.Component.Generate
import Trellis.Document.Basic
import Trellis.Port.Derive

/-!
# Server modules

A document with a server becomes a module that sets up the application, holds the server's state, answers every
route and listens on the server's port. A port that cannot be used and a route that is declared twice are
refused.
-/

namespace Trellis

/-- Why there is no output: a failure to report, or digits that are no number. -/
inductive GenerateError where
  | failed (failure : Failure)
  | digits (fault : DigitFault)
  deriving DecidableEq, Repr

namespace ServerModule

/-- The first route whose verb and path occur before it. -/
def repeatedRoute? (seen : List (Verb × Text)) : List Route → Option Route
  | [] => none
  | r :: rs =>
    if seen.contains (r.verb, r.path) then some r else repeatedRoute? (seen ++ [(r.verb, r.path)]) rs

/-- The lines that take a request apart. -/
def parameterLines (r : Route) : List CodeLine :=
  let source : Text := if r.verb = .get then "req.query" else "req.body"
  r.pathParams.map (fun n => ⟨1, "const " ++ n ++ " = req.params." ++ n ++ ";"⟩) ++
    (r.smartParams.filter (!r.pathParams.contains ·)).map fun n =>
      ⟨1, "const " ++ n ++ " = " ++ source ++ "." ++ n ++ ";"⟩

/-- The lines that answer when the route itself does not. -/
def fallbackLines (r : Route) : List CodeLine :=
  if Statement.hasResponse r.statements then []
  else
    [⟨1, "if (!res.headersSent) \x7b"⟩, ⟨2, "res.json(\x7b status: 'ok' \x7d);"⟩, ⟨1, "\x7d"⟩]

def routeLines (r : Route) : List CodeLine :=
  ⟨0, "app." ++ r.verb.name ++ "(" ++ Escape.quotedString r.path ++ ", async (req, res) => \x7b"⟩ ::
    parameterLines r ++ Code.emitRouteAll 1 r.statements ++ fallbackLines r ++ [⟨0, "\x7d);"⟩]

/-- What is said when the server listens. -/
def listenMessage (name : Text) (port : Port) : Text :=
  match port with
  | .number n => Escape.quotedString ("Server " ++ name ++ " listening on port " ++ Text.ofNat n)
  | .expression e =>
    "`" ++ Escape.inTemplate ("Server " ++ name ++ " listening on port ") ++ "$\x7b" ++ e ++ "\x7d`"

/-- What the header of a module says before the name. -/
def headerLead : Text := "// Generated by Yggdra from "

def moduleLines (path : Option Text) (s : Server) (port : Port) : List CodeLine :=
  let header := (Component.headerName? path).toList.map fun n =>
    (⟨0, headerLead ++ n⟩ : CodeLine)
  let state : List CodeLine := if s.state.isEmpty then []
    else Component.emptyLine :: s.state.map fun d => ⟨0, "let " ++ d.name ++ " = " ++ d.value ++ ";"⟩
  header ++
    [⟨0, "const express = require('express');"⟩, ⟨0, "const cors = require('cors');"⟩, Component.emptyLine,
      ⟨0, "const app = express();"⟩, ⟨0, "app.use(cors());"⟩, ⟨0, "app.use(express.json());"⟩,
      Component.emptyLine, ⟨0, "// Routes for " ++ s.name⟩] ++
    state ++ s.routes.flatMap (fun r => Component.emptyLine :: routeLines r) ++
    [Component.emptyLine, ⟨0, "app.listen(" ++ port.toText ++ ", () => \x7b"⟩,
      ⟨1, "console.log(" ++ listenMessage s.name port ++ ");"⟩, ⟨0, "\x7d);"⟩]

/-- The failure of a repeated route. -/
def repeatedFailure (r : Route) : Failure :=
  { kind := .generator, message := "duplicate route " ++ r.verb.upper ++ " " ++ r.path, location := some r.location }

/-- The number or expression a server listens on. -/
def portOf (s : Server) : Except GenerateError Port :=
  match Port.derive s.port with
  | .ok p => .ok p
  | .error f =>
    match f.toFailure (some s.location) with
    | .ok failure => .error (.failed failure)
    | .error d => .error (.digits d)

/-- The text of the module. The port is looked at before the routes. -/
def generate (path : Option Text) (indentSize : Nat) (d : Document) : Except GenerateError Text :=
  match d.script.server with
  | none => .error (.failed { kind := .generator, message := "program has no server definition" })
  | some s => do
    let port ← portOf s
    match repeatedRoute? [] s.routes with
    | some r => .error (.failed (repeatedFailure r))
    | none => .ok (CodeLine.renderAll indentSize (moduleLines path s port) ++ "\n")

end ServerModule

end Trellis
