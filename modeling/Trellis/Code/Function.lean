import Trellis.Code.Await
import Trellis.Code.Line
import Trellis.Code.StateAccess
import Trellis.Statement.Basic

/-!
# Generated functions

Statements become lines of code. State variables are written through their cells, a first assignment to any
other name declares it with `let`, and what a nested body declares is forgotten behind it. `Scope` is what
emission carries along: the declared names, and whether an `await` was inserted anywhere.
-/

namespace Trellis.Code

/-- What is known while the lines of a function are written. -/
structure Scope where
  declared : List Text := []
  awaited : Bool := false
  deriving DecidableEq, Repr

/-- The code of an expression, and whether an await was inserted. -/
def transform (states : List Text) (t : Text) : Text × Bool :=
  let (awaited, changed) := insertAwaits t
  (accessState states awaited, changed)

def commentLine (level : Nat) (text : Text) : CodeLine := ⟨level, Text.trimEnd ("// " ++ text)⟩

/-- The line of an assignment and the scope behind it. -/
def assignLine (states : List Text) (level : Nat) (scope : Scope) (target value : Text) : CodeLine × Scope :=
  if states.contains target then (⟨level, target ++ ".value = " ++ value⟩, scope)
  else if scope.declared.contains target then (⟨level, target ++ " = " ++ value⟩, scope)
  else (⟨level, "let " ++ target ++ " = " ++ value⟩, { scope with declared := scope.declared ++ [target] })

/-- The scope behind a nested body: its awaits count, its declarations do not. -/
def Scope.leave (outer inner : Scope) : Scope := { outer with awaited := inner.awaited }

/-- Records whether an await was inserted. -/
def Scope.await (scope : Scope) (changed : Bool) : Scope := { scope with awaited := scope.awaited || changed }

mutual

/-- The lines of a statement at a level, and the scope behind it. -/
def emit (states : List Text) (level : Nat) (scope : Scope) : Statement → List CodeLine × Scope
  | .comment text _ => ([commentLine level text], scope)
  | .cond condition body orelse _ =>
    let (test, changed) := transform states condition
    let scope := scope.await changed
    let (inner, after) := emitAll states (level + 1) scope body
    let scope := scope.leave after
    let (other, after) := emitAll states (level + 1) scope orelse
    let otherwise := if orelse.isEmpty then [] else ⟨level, "\x7d else \x7b"⟩ :: other
    (⟨level, "if (" ++ test ++ ") \x7b"⟩ :: inner ++ otherwise ++ [⟨level, "\x7d"⟩], scope.leave after)
  | .assign target value body _ =>
    let (value, changed) := transform states value
    let (line, scope) := assignLine states level (scope.await changed) target value
    let (inner, after) := emitAll states (level + 1) scope body
    (line :: inner, scope.leave after)
  | .raw text body _ =>
    let (text, changed) := transform states text
    let scope := scope.await changed
    let (inner, after) := emitAll states (level + 1) scope body
    (⟨level, text⟩ :: inner, scope.leave after)
  | .respond value _ =>
    let (value, changed) := transform states value
    ([⟨level, Text.trimEnd ("return " ++ value)⟩], scope.await changed)
  | .respondBlock _ _ => ([⟨level, "return"⟩], scope)

/-- The lines of several statements at a level, and the scope behind them. -/
def emitAll (states : List Text) (level : Nat) (scope : Scope) : List Statement → List CodeLine × Scope
  | [] => ([], scope)
  | s :: ss =>
    let (first, scope) := emit states level scope s
    let (rest, scope) := emitAll states level scope ss
    (first ++ rest, scope)

end

mutual

/-- The lines of a route statement at a level. -/
def emitRoute (level : Nat) : Statement → List CodeLine
  | .comment text _ => [commentLine level text]
  | .respondBlock block _ => [⟨level, "return res.json(" ++ block.render ++ ");"⟩]
  | .respond value _ => [⟨level, "return res.json(" ++ value ++ ");"⟩]
  | .raw text body _ => ⟨level, text⟩ :: emitRouteAll (level + 1) body
  | .assign _ _ _ _ | .cond _ _ _ _ => []

/-- The lines of several route statements at a level. -/
def emitRouteAll (level : Nat) : List Statement → List CodeLine
  | [] => []
  | s :: ss => emitRoute level s ++ emitRouteAll level ss

end

end Trellis.Code
