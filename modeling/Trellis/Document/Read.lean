import Trellis.Diagnostic.Distance
import Trellis.Document.Form
import Trellis.Document.Problem
import Trellis.Statement.Read
import Trellis.Token

/-!
# Reading documents

A document is read in one pass over the line tokens (`step`). Three things can be open at once: a capture, which
takes every deeper line as it stands; a server, which takes state and route lines; and the markup nodes on the
path to the last one (`stack`, innermost first), each of which takes the deeper lines after it. A line that
does not fit is reported and adds nothing; the lines after it are read as if it were not there.
-/

namespace Trellis.Document

/-- What an open markup node is, apart from its properties and children. -/
inductive Head where
  | element (kind : Text) (tag : Option Text)
  | pseudo (selector : Text)
  | condition (branch : Branch)
  | loop (item : Text) (index : Option Text) (collection : Text) (key : Option Text)
  deriving DecidableEq, Repr

/-- An open markup node: its children so far are closed. -/
structure Frame where
  indent : Nat
  head : Head
  location : Location
  properties : List Property := []
  children : List Node := []
  deriving Repr

/-- The finished node of a frame. -/
def Frame.close (f : Frame) : Node :=
  match f.head with
  | .element kind tag => .element kind tag f.properties f.children f.location
  | .pseudo selector => .pseudo selector f.properties f.location
  | .condition branch => .condition branch f.children f.location
  | .loop item index collection key => .loop item index collection key f.children f.location

/-- What a capture will declare. -/
inductive CaptureHead where
  | function (name : Text) (parameters : List Text)
  | service (name baseUrl : Text)
  | mount
  | route (verb : Verb) (name path : Text) (smartParams : List Text)
  deriving DecidableEq, Repr

/-- A declaration that is collecting its lines. -/
structure Capture where
  indent : Nat
  head : CaptureHead
  location : Location
  lines : List BodyLine := []
  deriving DecidableEq, Repr

/-- A server that is collecting its state and routes. -/
structure OpenServer where
  indent : Nat
  server : Server
  deriving Repr

/-- Everything known after some lines. -/
structure Reading where
  stack : List Frame := []
  roots : List Node := []
  capture : Option Capture := none
  openServer : Option OpenServer := none
  server : Option Server := none
  state : List StateDecl := []
  functions : List FunctionDecl := []
  services : List ServiceDecl := []
  aliases : List Alias := []
  mount : Option MountHook := none
  diagnostics : List Diagnostic := []
  deriving Repr

namespace Reading

def locate (filename : Option Text) (t : LineToken) : Location := ⟨t.line, t.indent + 1, filename⟩

def reportLine (filename : Option Text) (p : Problem) (line : Int) (raw : Text) (r : Reading) : Reading :=
  { r with diagnostics := r.diagnostics ++ [p.diagnose filename line raw] }

/-- Adds a diagnostic about the line of a token. -/
def report (filename : Option Text) (t : LineToken) (p : Problem) (r : Reading) : Reading :=
  reportLine filename p t.line t.raw r

/-! ### Closing what is open -/

/-- Closes the innermost frames of a stack that are not above `indent`, each into its parent. -/
def closeFrames (indent : Nat) : List Frame → List Node → List Frame × List Node
  | [], roots => ([], roots)
  | f :: fs, roots =>
    if f.indent < indent then (f :: fs, roots)
    else match fs with
      | [] => ([], roots ++ [f.close])
      | g :: gs => closeFrames indent ({ g with children := g.children ++ [f.close] } :: gs) roots
termination_by fs => fs.length

/-- Closes the markup nodes that a line at `indent` ends. -/
def popTo (indent : Nat) (r : Reading) : Reading :=
  let (stack, roots) := closeFrames indent r.stack r.roots
  { r with stack := stack, roots := roots }

/-- The methods of a service body; other lines than comments are reported and left out. -/
def readMethods (filename : Option Text) : List BodyLine → List ServiceMethod × List Diagnostic
  | [] => ([], [])
  | l :: ls =>
    let (methods, diagnostics) := readMethods filename ls
    if l.isComment then (methods, diagnostics)
    else match Form.serviceMethod? l.code with
      | some (verb, name, path, smart) =>
        (⟨verb, name, path, Form.pathParams path, smart, Statement.locate filename l⟩ :: methods, diagnostics)
      | none =>
        (methods, Problem.unsupportedServiceLine.diagnose filename l.line l.raw :: diagnostics)

/-- Declares what a capture has collected. -/
def declare (filename : Option Text) (c : Capture) (r : Reading) : Reading :=
  match c.head with
  | .function name parameters =>
    let statements := Statement.readBody filename c.lines
    { r with functions := r.functions ++ [⟨name, parameters, c.lines, statements, c.location⟩] }
  | .mount =>
    { r with mount := some ⟨c.lines, Statement.readBody filename c.lines, c.location⟩ }
  | .service name baseUrl =>
    let (methods, diagnostics) := readMethods filename c.lines
    { r with
      services := r.services ++ [⟨name, baseUrl, c.lines, methods, c.location⟩]
      diagnostics := r.diagnostics ++ diagnostics }
  | .route verb name path smart =>
    let (statements, reports) := Statement.readRouteBody filename c.lines
    let route : Route := ⟨verb, name, path, Form.pathParams path, smart, c.lines, statements, c.location⟩
    { r with
      openServer := r.openServer.map fun o => { o with server.routes := o.server.routes ++ [route] }
      diagnostics := r.diagnostics ++
        reports.map fun b => (Problem.block b.fault).diagnose filename b.origin.line b.origin.raw }

/-- Closes the capture, if one is open. -/
def closeCapture (filename : Option Text) (r : Reading) : Reading :=
  match r.capture with
  | none => r
  | some c => declare filename c { r with capture := none }

/-- Closes the server, if one is open. Only the first server of a source is kept. -/
def closeServer (r : Reading) : Reading :=
  match r.openServer with
  | none => r
  | some o => { r with openServer := none, server := some (r.server.getD o.server) }

/-! ### Declarations -/

/-- The state declaration of a token. -/
def stateDecl? (filename : Option Text) (t : LineToken) : Option StateDecl :=
  (Form.state? t.text).map fun (type, name, value) => ⟨type, name, value, locate filename t⟩

def openCapture (filename : Option Text) (t : LineToken) (head : CaptureHead) (r : Reading) : Reading :=
  { r with capture := some { indent := t.indent, head := head, location := locate filename t } }

def readState (filename : Option Text) (t : LineToken) (r : Reading) : Reading :=
  match stateDecl? filename t with
  | some d => { r with state := r.state ++ [d] }
  | none => r.report filename t .malformedState

def readFunction (filename : Option Text) (t : LineToken) (r : Reading) : Reading :=
  match Form.function? t.text with
  | some (name, parameters) => r.openCapture filename t (.function name parameters)
  | none => r.report filename t .malformedFunction

def readService (filename : Option Text) (t : LineToken) (r : Reading) : Reading :=
  match Form.service? t.text with
  | some (name, url) => r.openCapture filename t (.service name url)
  | none => r.report filename t .malformedService

def readUse (filename : Option Text) (t : LineToken) (r : Reading) : Reading :=
  match Form.aliasOf? t.text with
  | some (source, name) => { r with aliases := r.aliases ++ [⟨source, name, locate filename t⟩] }
  | none => r.report filename t .malformedUse

/-- A mount line. A second block replaces the first one. -/
def readMount (filename : Option Text) (t : LineToken) (r : Reading) : Reading :=
  if t.text = [] || t.text = [':'] then
    let r := if r.mount.isSome then r.report filename t .duplicateMount else r
    r.openCapture filename t .mount
  else r.report filename t .malformedMount

/-- A server line. A second server is still read, but not kept. -/
def readServer (filename : Option Text) (t : LineToken) (r : Reading) : Reading :=
  let r := if r.server.isSome then r.report filename t .duplicateServer else r
  match Form.server? t.text with
  | some (name, port) =>
    { r with openServer := some ⟨t.indent, ⟨name, port, [], [], locate filename t⟩⟩ }
  | none => r.report filename t .malformedServer

def readServerLine (filename : Option Text) (t : LineToken) (o : OpenServer) (r : Reading) : Reading :=
  match t.kind with
  | .state =>
    match stateDecl? filename t with
    | some d => { r with openServer := some { o with server.state := o.server.state ++ [d] } }
    | none => r.report filename t .malformedState
  | .route verb =>
    match Form.route? t.text with
    | some (name, path, smart) => r.openCapture filename t (.route verb name path smart)
    | none => r.report filename t (.malformedRoute verb)
  | _ => r.report filename t .notForServer

/-! ### Markup -/

/-- Opens a markup node below the innermost open one. -/
def push (filename : Option Text) (t : LineToken) (head : Head) (r : Reading) : Reading :=
  { r with stack := { indent := t.indent, head := head, location := locate filename t } :: r.stack }

/-- The innermost open node is a pseudo-class, which takes no markup. -/
def insidePseudo (r : Reading) : Bool :=
  match r.stack with
  | { head := .pseudo _, .. } :: _ => true
  | _ => false

/-- Opens a markup node, unless the innermost open one is a pseudo-class. -/
def pushMarkup (filename : Option Text) (t : LineToken) (head : Head) (r : Reading) : Reading :=
  if r.insidePseudo then r.report filename t .onlyStyles else r.push filename t head

def readElement (filename : Option Text) (t : LineToken) (r : Reading) : Reading :=
  if Form.isElement t.text then r.pushMarkup filename t (.element t.text none)
  else r.report filename t .malformedElement

def readPseudo (filename : Option Text) (t : LineToken) (r : Reading) : Reading :=
  if t.text.isEmpty then r.report filename t .missingSelector
  else match r.stack with
    | { head := .element _ _, .. } :: _ => r.push filename t (.pseudo t.text)
    | _ => r.report filename t .pseudoOutsideElement

/-- The last closed node among the siblings of the next line. -/
def lastSibling? (r : Reading) : Option Node :=
  match r.stack with
  | f :: _ => f.children.getLast?
  | [] => r.roots.getLast?

def readElse (filename : Option Text) (t : LineToken) (r : Reading) : Reading :=
  match r.lastSibling? with
  | some (.condition (.when _) _ _) => r.push filename t (.condition .otherwise)
  | _ => r.report filename t .elseWithoutIf

def readLoop (filename : Option Text) (t : LineToken) (r : Reading) : Reading :=
  match Form.loop? t.text with
  | some (item, index, collection) => r.pushMarkup filename t (.loop item index collection none)
  | none => r.report filename t .malformedLoop

/-- A property line, given to the innermost open node. -/
def readProperty (filename : Option Text) (t : LineToken) (r : Reading) : Reading :=
  match Form.property? t.text with
  | none => r.report filename t .malformedProperty
  | some (key, raw) =>
    let value := Value.classify (raw.getD [])
    let property : Property := ⟨key, value, locate filename t⟩
    match r.stack with
    | [] => r.report filename t .propertyOutsideElement
    | f :: fs =>
      match f.head with
      | .element kind _ =>
        if key = "tag" then
          match value with
          | .flag => r.report filename t .missingTag
          | .static tag | .dynamic tag => { r with stack := { f with head := .element kind (some tag) } :: fs }
        else { r with stack := { f with properties := f.properties ++ [property] } :: fs }
      | .pseudo _ => { r with stack := { f with properties := f.properties ++ [property] } :: fs }
      | .loop item index collection _ =>
        if key = "key" && !(raw.getD []).isEmpty then
          { r with stack := { f with head := .loop item index collection raw } :: fs }
        else r.report filename t .notForLoop
      | .condition _ => r.report filename t .propertyOutsideElement

/-- A line that starts with nothing known. The leader nearest to its first word is suggested. -/
def readUnknown (filename : Option Text) (t : LineToken) (r : Reading) : Reading :=
  let word := (Text.words t.content).headD t.content
  r.report filename t (.unrecognised (suggestSimilar word LineKind.leaders 2 3).head?)

/-! ### One line -/

/-- A line that no capture and no server takes. -/
def readLine (filename : Option Text) (t : LineToken) (r : Reading) : Reading :=
  let r := r.popTo t.indent
  match t.kind with
  | .state => r.readState filename t
  | .fn => r.readFunction filename t
  | .server => r.readServer filename t
  | .route _ => r.report filename t .routeOutsideServer
  | .property => r.readProperty filename t
  | .pseudo => r.readPseudo filename t
  | .cond => r.pushMarkup filename t (.condition (.when t.text))
  | .otherwise => r.readElse filename t
  | .loop => r.readLoop filename t
  | .service => r.readService filename t
  | .use => r.readUse filename t
  | .onMount => r.readMount filename t
  | .element => r.readElement filename t
  | .comment | .unknown => r.readUnknown filename t

/-- A line that no capture takes: a comment is skipped, a line inside the open server goes there. -/
def readOutside (filename : Option Text) (t : LineToken) (r : Reading) : Reading :=
  if t.kind = .comment then r
  else match r.openServer with
    | some o => if o.indent < t.indent then r.readServerLine filename t o else r.closeServer.readLine filename t
    | none => r.readLine filename t

def step (filename : Option Text) (r : Reading) (t : LineToken) : Reading :=
  match r.capture with
  | some c =>
    if c.indent < t.indent then { r with capture := some { c with lines := c.lines ++ [t.toBodyLine] } }
    else (r.closeCapture filename).readOutside filename t
  | none => r.readOutside filename t

def finish (filename : Option Text) (r : Reading) : Reading :=
  ((r.closeCapture filename).closeServer).popTo 0

def toDocument (r : Reading) : Document :=
  { children := r.roots
    script :=
      { state := r.state, functions := r.functions, services := r.services, aliases := r.aliases,
        mount := r.mount, server := r.server }
    diagnostics := r.diagnostics }

end Reading

def ofTokens (filename : Option Text) (tokens : List LineToken) : Document :=
  ((tokens.foldl (Reading.step filename) {}).finish filename).toDocument

def read (filename : Option Text) (source : Text) : Document := ofTokens filename (LineToken.tokenize source)

end Trellis.Document
