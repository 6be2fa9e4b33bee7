import Trellis.Document.Basic

/-!
# Document listings

A readable dump of a document: its declarations, then its markup tree, two spaces per depth.
-/

namespace Trellis.Document

/-- The shown value of a property. -/
def shownValue : Value.Class → Text
  | .flag => "None"
  | .static v | .dynamic v => Text.quoted v

def propertyLine (pad : Text) (p : Property) : Text :=
  let kind : Text := match p.value with
    | .dynamic _ => "dynamic"
    | .flag | .static _ => "static"
  pad ++ "  ." ++ p.key ++ " = " ++ shownValue p.value ++ " (" ++ kind ++ ")"

def pseudoPropertyLine (pad : Text) (p : Property) : Text := pad ++ "  ." ++ p.key ++ " = " ++ shownValue p.value

mutual

/-- The lines of a markup node at a depth. -/
def listNode (depth : Nat) : Node → List Text
  | .element kind tag properties children _ =>
    let pad := Text.spaces (2 * depth)
    let shownTag : Text := match tag with
      | none | some [] => []
      | some t => " tag=" ++ t
    (pad ++ kind ++ shownTag) :: properties.map (propertyLine pad) ++ listNodes (depth + 1) children
  | .pseudo selector properties _ =>
    let pad := Text.spaces (2 * depth)
    (pad ++ "&" ++ selector) :: properties.map (pseudoPropertyLine pad)
  | .condition branch children _ =>
    let shown : Text := match branch with
      | .when test => "if " ++ test
      | .otherwise => "else"
    Text.trimEnd (Text.spaces (2 * depth) ++ shown) :: listNodes (depth + 1) children
  | .loop item index collection key children _ =>
    let bindings : Text := match index with
      | some i => item ++ ", " ++ i
      | none => item
    let shownKey : Text := match key with
      | none | some [] => []
      | some k => " key=" ++ k
    (Text.spaces (2 * depth) ++ "loop " ++ bindings ++ " in " ++ collection ++ shownKey) ::
      listNodes (depth + 1) children

/-- The lines of several markup nodes at a depth. -/
def listNodes (depth : Nat) : List Node → List Text
  | [] => []
  | n :: ns => listNode depth n ++ listNodes depth ns

end

def stateListing (s : StateDecl) : Text := "  State " ++ s.typeName ++ " " ++ s.name ++ " = " ++ s.value

def functionListing (f : FunctionDecl) : Text :=
  "  Function " ++ f.name ++ "(" ++ Text.join ", " f.parameters ++ ")"

/-- An endpoint inside a service or a server. -/
def endpointListing (verb : Verb) (name path : Text) : Text :=
  "    " ++ verb.upper ++ " " ++ name ++ " " ++ path

def serviceListing (s : ServiceDecl) : List Text :=
  ("  Service " ++ s.name ++ " -> " ++ s.baseUrl) ::
    s.methods.map fun m => endpointListing m.verb m.name m.path

def aliasListing (a : Alias) : Text := "  Use " ++ a.source ++ " as " ++ a.name

def mountListing (m : MountHook) : Text := "  OnMount (" ++ Text.ofNat m.statements.length ++ " statements)"

def serverStateListing (s : StateDecl) : Text := "    State " ++ s.name ++ " = " ++ s.value

def serverListing (s : Server) : List Text :=
  ("  Server " ++ s.name ++ " port=" ++ s.port.getD "default") ::
    s.state.map serverStateListing ++ s.routes.map fun r => endpointListing r.verb r.name r.path

def listing (d : Document) : Text :=
  let s := d.script
  let head : Text := "Program"
  Text.unlines
    (head :: s.state.map stateListing ++ s.functions.map functionListing ++ s.services.flatMap serviceListing
      ++ s.aliases.map aliasListing ++ s.mount.toList.map mountListing ++ s.server.toList.flatMap serverListing
      ++ listNodes 1 d.children)

end Trellis.Document
