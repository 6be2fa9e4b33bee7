import Trellis.Document.Read
import Trellis.Editor.Range

/-!
# Outlines

The definitions of a source as an editor lists them: aliases, state, functions, services with their methods, the
mount hook, the server with its state and routes, and the elements of the markup. Conditions and loops are
transparent: their elements stand where they do.
-/

namespace Trellis.Editor

inductive SymbolKind where
  | state
  | function
  | service
  | method
  | reference
  | mount
  | server
  | route
  | element
  deriving DecidableEq, Repr

/-- An entry of an outline. -/
inductive Symbol where
  | mk (name : Text) (kind : SymbolKind) (detail : Option Text) (range : Range) (children : List Symbol)
  deriving Repr

/-- The symbol of a definition at a location; its range ends with the text of the line. Without a location it
covers as many characters as its name. -/
def symbolAt (lines : List Text) (name : Text) (kind : SymbolKind) (location : Option Location)
    (detail : Option Text) (children : List Symbol) : Symbol :=
  match location with
  | none => .mk name kind detail ⟨0, 0, max name.length 1⟩ children
  | some l =>
    let line := max 0 (l.line - 1)
    let start := max 0 (l.column - 1)
    let stop := (Text.trimEnd (lines.getD line.toNat [])).length
    .mk name kind detail ⟨line, start, max stop (start + 1)⟩ children

mutual

/-- The element symbols of a markup node. -/
def nodeSymbols (lines : List Text) : Node → List Symbol
  | .element kind tag _ children location =>
    [symbolAt lines kind .element (some location) tag (nodesSymbols lines children)]
  | .condition _ children _ => nodesSymbols lines children
  | .loop _ _ _ _ children _ => nodesSymbols lines children
  | .pseudo _ _ _ => []

/-- The element symbols of several markup nodes. -/
def nodesSymbols (lines : List Text) : List Node → List Symbol
  | [] => []
  | n :: ns => nodeSymbols lines n ++ nodesSymbols lines ns

end

def endpointDetail (verb : Verb) (path : Text) : Text := verb.upper ++ " " ++ path

def serviceSymbol (lines : List Text) (s : ServiceDecl) : Symbol :=
  symbolAt lines s.name .service (some s.location) (some s.baseUrl)
    (s.methods.map fun m => symbolAt lines m.name .method (some m.location) (some (endpointDetail m.verb m.path)) [])

def serverSymbol (lines : List Text) (s : Server) : Symbol :=
  symbolAt lines s.name .server (some s.location) (s.port.map fun p => "port " ++ p)
    (s.state.map (fun d => symbolAt lines d.name .state (some d.location) (some d.typeName) []) ++
      s.routes.map fun r => symbolAt lines r.name .route (some r.location) (some (endpointDetail r.verb r.path)) [])

def outline (lines : List Text) (d : Document) : List Symbol :=
  let s := d.script
  s.aliases.map (fun a => symbolAt lines a.name .reference (some a.location) (some a.source) []) ++
    s.state.map (fun v =>
      symbolAt lines v.name .state (some v.location) (some (v.typeName ++ " = " ++ v.value)) []) ++
    s.functions.map (fun f =>
      symbolAt lines f.name .function (some f.location) (some ("(" ++ Text.join ", " f.parameters ++ ")")) []) ++
    s.services.map (serviceSymbol lines) ++
    s.mount.toList.map (fun m => symbolAt lines "onMount" .mount (some m.location) none []) ++
    s.server.toList.map (serverSymbol lines) ++
    nodesSymbols lines d.children

def symbols (uri source : Text) : List Symbol := outline (Text.lines source) (Document.read (some uri) source)

end Trellis.Editor
