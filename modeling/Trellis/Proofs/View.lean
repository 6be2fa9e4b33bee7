import Trellis.Proofs.Outcome

/-!
# Documents with their places changed

A `View` changes where things are and what was reported, and nothing else.  Generated text does not depend on either:
the template, the script and the server module of a document are those of every view of it, and a generator that
fails on one fails on the other, with the place of the failure changed (`View.generate_document`).
-/

namespace Trellis

/-- A way to see body lines, places and diagnostics. -/
structure View where
  line : BodyLine → BodyLine
  place : Location → Location
  report : Diagnostic → Diagnostic

namespace View

variable (V : View)

/-! ### Seeing a document -/

def property (p : Property) : Property := { p with location := V.place p.location }

mutual

def node : Node → Node
  | .element kind tag properties children l =>
    .element kind tag (properties.map V.property) (nodes children) (V.place l)
  | .pseudo selector properties l => .pseudo selector (properties.map V.property) (V.place l)
  | .condition branch children l => .condition branch (nodes children) (V.place l)
  | .loop item index collection key children l => .loop item index collection key (nodes children) (V.place l)

def nodes : List Node → List Node
  | [] => []
  | n :: ns => node n :: nodes ns

end

mutual

/-- A statement, seen. -/
def statement : Statement → Statement
  | .comment text l => .comment text (V.place l)
  | .raw text body l => .raw text (statements body) (V.place l)
  | .assign target value body l => .assign target value (statements body) (V.place l)
  | .cond condition body orelse l => .cond condition (statements body) (statements orelse) (V.place l)
  | .respond value l => .respond value (V.place l)
  | .respondBlock block l => .respondBlock block (V.place l)

def statements : List Statement → List Statement
  | [] => []
  | s :: ss => statement s :: statements ss

end

def stateDecl (d : StateDecl) : StateDecl := { d with location := V.place d.location }

def functionDecl (f : FunctionDecl) : FunctionDecl :=
  { f with body := f.body.map V.line, statements := V.statements f.statements, location := V.place f.location }

def serviceMethod (m : ServiceMethod) : ServiceMethod := { m with location := V.place m.location }

def serviceDecl (s : ServiceDecl) : ServiceDecl :=
  { s with body := s.body.map V.line, methods := s.methods.map V.serviceMethod, location := V.place s.location }

def mountHook (m : MountHook) : MountHook :=
  { body := m.body.map V.line, statements := V.statements m.statements, location := V.place m.location }

def aliasDecl (a : Alias) : Alias := { a with location := V.place a.location }

def route (r : Route) : Route :=
  { r with body := r.body.map V.line, statements := V.statements r.statements, location := V.place r.location }

def server (s : Server) : Server :=
  { s with state := s.state.map V.stateDecl, routes := s.routes.map V.route, location := V.place s.location }

def script (s : Script) : Script :=
  { state := s.state.map V.stateDecl
    functions := s.functions.map V.functionDecl
    services := s.services.map V.serviceDecl
    aliases := s.aliases.map V.aliasDecl
    mount := s.mount.map V.mountHook
    server := s.server.map V.server }

def document (d : Document) : Document :=
  { children := V.nodes d.children, script := V.script d.script, diagnostics := d.diagnostics.map V.report }

def failure (f : Failure) : Failure := { f with location := f.location.map V.place }

/-- An error of a generator, seen. -/
def generateError : GenerateError → GenerateError
  | .failed f => .failed (V.failure f)
  | .digits fault => .digits fault

theorem nodes_eq_map (ns : List Node) : V.nodes ns = ns.map V.node := by
  induction ns with
  | nil => rfl
  | cons n ns ih => rw [nodes, ih, List.map_cons]

theorem statements_eq_map (ss : List Statement) : V.statements ss = ss.map V.statement := by
  induction ss with
  | nil => rfl
  | cons s ss ih => rw [statements, ih, List.map_cons]

/-! ### Code -/

theorem isEmpty_statements (ss : List Statement) : (V.statements ss).isEmpty = ss.isEmpty := by
  cases ss <;> rfl

mutual

theorem emit_statement (states : List Text) : ∀ (s : Statement) (level : Nat) (scope : Code.Scope),
    Code.emit states level scope (V.statement s) = Code.emit states level scope s
  | .comment _ _, _, _ => rfl
  | .raw _ body _, level, scope => by simp only [statement, Code.emit, emit_statements states body]
  | .assign _ _ body _, level, scope => by simp only [statement, Code.emit, emit_statements states body]
  | .cond _ body orelse _, level, scope => by
    simp only [statement, Code.emit, emit_statements states body, emit_statements states orelse, isEmpty_statements]
  | .respond _ _, _, _ => rfl
  | .respondBlock _ _, _, _ => rfl

/-- The code of a function does not depend on where its statements are. -/
theorem emit_statements (states : List Text) : ∀ (ss : List Statement) (level : Nat) (scope : Code.Scope),
    Code.emitAll states level scope (V.statements ss) = Code.emitAll states level scope ss
  | [], _, _ => rfl
  | s :: ss, level, scope => by
    simp only [statements, Code.emitAll, emit_statement states s, emit_statements states ss]

end

mutual

theorem emitRoute_statement : ∀ (s : Statement) (level : Nat),
    Code.emitRoute level (V.statement s) = Code.emitRoute level s
  | .comment _ _, _ => rfl
  | .raw _ body _, level => by simp only [statement, Code.emitRoute, emitRoute_statements body]
  | .assign _ _ _ _, _ => rfl
  | .cond _ _ _ _, _ => rfl
  | .respond _ _, _ => rfl
  | .respondBlock _ _, _ => rfl

/-- The code of a route does not depend on where its statements are. -/
theorem emitRoute_statements : ∀ (ss : List Statement) (level : Nat),
    Code.emitRouteAll level (V.statements ss) = Code.emitRouteAll level ss
  | [], _ => rfl
  | s :: ss, level => by
    simp only [statements, Code.emitRouteAll, emitRoute_statement s, emitRoute_statements ss]

end

/-! ### Templates -/

theorem foldl_property (kind cls : Text) (draft : Component.Draft) (ps : List Property) :
    (ps.map V.property).foldl (Component.Draft.apply kind cls) draft = ps.foldl (Component.Draft.apply kind cls) draft := by
  rw [List.foldl_map]
  rfl

theorem filterMap_property (ps : List Property) :
    (ps.map V.property).filterMap Component.pseudoDeclaration? = ps.filterMap Component.pseudoDeclaration? := by
  rw [List.filterMap_map]
  rfl

mutual

theorem build_node : ∀ (n : Node) (owner : Option Text) (sheet : Sheet),
    Component.build owner sheet (V.node n) = Component.build owner sheet n
  | .element _ _ _ cs _, owner, sheet => by simp only [node, Component.build, foldl_property, build_nodes cs]
  | .pseudo _ _ _, owner, sheet => by
    simp only [node, Component.build, filterMap_property]
  | .condition _ cs _, owner, sheet => by simp only [node, Component.build, build_nodes cs]
  | .loop _ _ _ _ cs _, owner, sheet => by simp only [node, Component.build, build_nodes cs]

/-- The template of a markup tree does not depend on where its nodes are. -/
theorem build_nodes : ∀ (ns : List Node) (owner : Option Text) (sheet : Sheet),
    Component.buildAll owner sheet (V.nodes ns) = Component.buildAll owner sheet ns
  | [], _, _ => rfl
  | n :: ns, owner, sheet => by simp only [nodes, Component.buildAll, build_node n, build_nodes ns]

end

/-! ### Scripts -/

theorem functionLines_view (states : List Text) (f : FunctionDecl) :
    Component.functionLines states (V.functionDecl f) = Component.functionLines states f := by
  simp only [Component.functionLines, functionDecl, emit_statements]

theorem mountLines_view (states : List Text) (m : MountHook) :
    Component.mountLines states (V.mountHook m) = Component.mountLines states m := by
  simp only [Component.mountLines, mountHook, emit_statements, isEmpty_statements]

theorem serviceLines_view (s : ServiceDecl) : Component.serviceLines (V.serviceDecl s) = Component.serviceLines s := by
  simp only [Component.serviceLines, serviceDecl, List.flatMap_map]
  rfl

theorem stateNames_view (s : Script) : Component.stateNames (V.script s) = Component.stateNames s := by
  simp only [Component.stateNames, script, List.map_map]
  rfl

theorem scriptLines_view (s : Script) (states : List Text) :
    Component.scriptLines (V.script s) states = Component.scriptLines s states := by
  have hblocks : Component.blocks (V.script s) states = Component.blocks s states := by
    have hstate : s.state.map (Component.stateLine ∘ V.stateDecl) = s.state.map Component.stateLine := rfl
    have hservices : Component.serviceLines ∘ V.serviceDecl = Component.serviceLines := funext V.serviceLines_view
    have haliases : s.aliases.map (Component.aliasLine ∘ V.aliasDecl) = s.aliases.map Component.aliasLine := rfl
    have hfunctions : Component.functionLines states ∘ V.functionDecl = Component.functionLines states :=
      funext (V.functionLines_view states)
    have hmount : Component.mountLines states ∘ V.mountHook = Component.mountLines states :=
      funext (V.mountLines_view states)
    simp only [Component.blocks, script, List.map_map, Option.toList_map, hstate, hservices, haliases, hfunctions,
      hmount]
  have himports : Component.imports (V.script s) = Component.imports s := by
    simp only [Component.imports, script, List.isEmpty_map, Option.isSome_map]
  simp only [Component.scriptLines, hblocks, himports]

theorem component_document (path : Option Text) (indentSize : Nat) (d : Document) :
    Component.generate path indentSize (V.document d) = Component.generate path indentSize d := by
  simp only [Component.generate, document, build_nodes, stateNames_view, scriptLines_view]

/-! ### Server modules -/

theorem hasResponse_statements (ss : List Statement) :
    Statement.hasResponse (V.statements ss) = Statement.hasResponse ss := by
  have hs : Statement.isResponse ∘ V.statement = Statement.isResponse := by
    funext s
    cases s <;> rfl
  rw [Statement.hasResponse, statements_eq_map, List.any_map, hs]
  rfl

theorem routeLines_view (r : Route) : ServerModule.routeLines (V.route r) = ServerModule.routeLines r := by
  have hfallback : ServerModule.fallbackLines (V.route r) = ServerModule.fallbackLines r := by
    simp only [ServerModule.fallbackLines, route, hasResponse_statements]
  simp only [ServerModule.routeLines, hfallback]
  simp only [route, emitRoute_statements]
  rfl

theorem moduleLines_view (path : Option Text) (s : Server) (port : Port) :
    ServerModule.moduleLines path (V.server s) port = ServerModule.moduleLines path s port := by
  simp only [ServerModule.moduleLines, server, List.isEmpty_map, List.map_map, List.flatMap_map, routeLines_view]
  rfl

theorem repeatedRoute?_view (seen : List (Verb × Text)) (rs : List Route) :
    ServerModule.repeatedRoute? seen (rs.map V.route) = (ServerModule.repeatedRoute? seen rs).map V.route := by
  induction rs generalizing seen with
  | nil => rfl
  | cons r rs ih =>
    simp only [List.map_cons, ServerModule.repeatedRoute?]
    show (if seen.contains (r.verb, r.path) then _ else _) = _
    split
    · rfl
    · exact ih _

theorem portOf_view (s : Server) :
    ServerModule.portOf (V.server s) = (ServerModule.portOf s).mapError V.generateError := by
  have hport : (V.server s).port = s.port := rfl
  unfold ServerModule.portOf
  rw [hport]
  cases Port.derive s.port with
  | ok p => rfl
  | error f => cases f <;> rfl

/-- **Generating sees no places.**  A view of a document generates the same text, or fails in the same way. -/
theorem generate_document (path : Option Text) (d : Document) :
    (V.document d).generate path = (d.generate path).mapError V.generateError := by
  cases hs : d.script.server with
  | none =>
    have hview : (V.document d).script.server = none := by simp [document, script, hs]
    rw [Document.generate_component hs, Document.generate_component hview, component_document]
    rfl
  | some s =>
    have hview : (V.document d).script.server = some (V.server s) := by simp [document, script, hs]
    have hroutes : (V.server s).routes = s.routes.map V.route := rfl
    rw [Document.generate_server hs, Document.generate_server hview, portOf_view, hroutes, repeatedRoute?_view]
    cases ServerModule.portOf s with
    | error e => rfl
    | ok port =>
      cases ServerModule.repeatedRoute? [] s.routes with
      | some r => rfl
      | none =>
        simp only [Except.mapError, Option.map_none, moduleLines_view]

theorem outputSuffix_document (d : Document) : (V.document d).outputSuffix = d.outputSuffix := by
  simp only [Document.outputSuffix, document, script, Option.isSome_map]

end View

end Trellis
