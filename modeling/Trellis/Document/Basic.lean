import Trellis.Diagnostic.Basic
import Trellis.Statement.Basic
import Trellis.Value
import Trellis.Verb

/-!
# Documents

What a source describes: a markup tree, and a script of declarations beside it.
-/

namespace Trellis

/-- A property of an element, a pseudo-class or a loop. -/
structure Property where
  key : Text
  value : Value.Class
  location : Location
  deriving DecidableEq, Repr

/-- The two branches of a condition. -/
inductive Branch where
  | when (test : Text)
  | otherwise
  deriving DecidableEq, Repr

/-- A node of the markup tree. -/
inductive Node where
  | element (kind : Text) (tag : Option Text) (properties : List Property) (children : List Node)
      (location : Location)
  | pseudo (selector : Text) (properties : List Property) (location : Location)
  | condition (branch : Branch) (children : List Node) (location : Location)
  | loop (item : Text) (index : Option Text) (collection : Text) (key : Option Text)
      (children : List Node) (location : Location)
  deriving Repr

namespace Node

def children : Node → List Node
  | .element _ _ _ cs _ | .condition _ cs _ | .loop _ _ _ _ cs _ => cs
  | .pseudo _ _ _ => []

def location : Node → Location
  | .element _ _ _ _ l | .pseudo _ _ l | .condition _ _ l | .loop _ _ _ _ _ l => l

mutual

/-- The nodes of a tree with their depths, each before the nodes below it. -/
def preorder (depth : Nat) : Node → List (Node × Nat)
  | .element k t ps cs l => (.element k t ps cs l, depth) :: preorderAll (depth + 1) cs
  | .pseudo s ps l => [(.pseudo s ps l, depth)]
  | .condition b cs l => (.condition b cs l, depth) :: preorderAll (depth + 1) cs
  | .loop i x c k cs l => (.loop i x c k cs l, depth) :: preorderAll (depth + 1) cs

/-- The nodes of a forest in order. -/
def preorderAll (depth : Nat) : List Node → List (Node × Nat)
  | [] => []
  | n :: ns => preorder depth n ++ preorderAll depth ns

end

end Node

/-- A state variable; its type is `any` unless it is given. -/
structure StateDecl where
  typeName : Text
  name : Text
  value : Text
  location : Location
  deriving DecidableEq, Repr

structure FunctionDecl where
  name : Text
  parameters : List Text
  body : List BodyLine
  statements : List Statement
  location : Location
  deriving Repr

/-- A method of a service client. -/
structure ServiceMethod where
  verb : Verb
  name : Text
  path : Text
  pathParams : List Text
  smartParams : List Text
  location : Location
  deriving DecidableEq, Repr

/-- The parameters in order: those of the path, then the named ones. -/
def ServiceMethod.parameters (m : ServiceMethod) : List Text := m.pathParams ++ m.smartParams

structure ServiceDecl where
  name : Text
  baseUrl : Text
  body : List BodyLine
  methods : List ServiceMethod
  location : Location
  deriving DecidableEq, Repr

/-- The block that runs when the component is mounted. -/
structure MountHook where
  body : List BodyLine
  statements : List Statement
  location : Location
  deriving Repr

structure Alias where
  source : Text
  name : Text
  location : Location
  deriving DecidableEq, Repr

/-- An endpoint of a server. -/
structure Route where
  verb : Verb
  name : Text
  path : Text
  pathParams : List Text
  smartParams : List Text
  body : List BodyLine
  statements : List Statement
  location : Location
  deriving Repr

/-- A server with its own state. -/
structure Server where
  name : Text
  port : Option Text
  state : List StateDecl
  routes : List Route
  location : Location
  deriving Repr

/-- Everything declared beside the markup. -/
structure Script where
  state : List StateDecl := []
  functions : List FunctionDecl := []
  services : List ServiceDecl := []
  aliases : List Alias := []
  mount : Option MountHook := none
  server : Option Server := none
  deriving Repr

/-- A source, read. -/
structure Document where
  children : List Node
  script : Script
  diagnostics : List Diagnostic
  deriving Repr

end Trellis
