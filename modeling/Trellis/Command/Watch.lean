import Trellis.Command.Compile

/-!
# Watching files

A watch looks at its files again and again. In each look it compiles the files whose modification time is not the one
it saw last, in the order of their paths; between two looks it pauses. A file that cannot be used or compiled is
reported, and the watch goes on; other faults, such as bytes that are no text or a pause that is refused, end it.
-/

namespace Trellis.Command

def sourceSuffix : Name := ".ygg"

/-- What is watched, and how. -/
structure Watch where
  input : Path
  output : Option (Setting Path)
  config : Config
  strict : Bool
  verbose : Bool
  deriving DecidableEq, Repr

/-- A watch in progress: the files, the times seen last, and what has been printed. -/
structure Watch.State where
  tree : FileTree
  seen : List (Path × Nat) := []
  printed : Printed := {}

namespace Watch

/-- The files to look at: the input itself, or the source files below it. -/
def files (w : Watch) (t : FileTree) : List Path :=
  if t.isFile w.input then [w.input] else t.search sourceSuffix w.input

/-- The time seen last. -/
def State.time? (s : State) (p : Path) : Option Nat := s.seen.lookup p

def State.record (s : State) (p : Path) (time : Nat) : State :=
  { s with seen := (p, time) :: s.seen.filter fun x => x.1 ≠ p }

/-- The line about a file that has been compiled. -/
def line (stamp : Text) (p : Path) : Result → Except Fault Name
  | .written target => .ok ("[" ++ stamp ++ "] Compiled: " ++ p.written ++ " -> " ++ target.written)
  | .failed => .ok ("[" ++ stamp ++ "] Failed: " ++ p.written)
  | .stopped (.file f) => if f.isSystem then .ok ("[" ++ stamp ++ "] Error: " ++ f.message) else .error (.file f)
  | .stopped fault => .error fault

/-- The line about a file, if the machine prints it. -/
def report (m : Machine) (p : Path) (result : Result) : Except Fault Name :=
  match line m.stamp p result with
  | .error fault => .error fault
  | .ok line =>
    match m.refusal? line with
    | none => .ok line
    | some fault => .error fault

def compileOne (w : Watch) (m : Machine) (s : State) (p : Path) : State × Option Fault :=
  let (tree, printed, result) := compileToFile s.tree w.config w.verbose w.strict w.output p
  let s := { s with tree := tree, printed := s.printed ++ printed }
  match report m p result with
  | .ok line => ({ s with printed := s.printed ++ onOut line }, none)
  | .error fault => (s, some fault)

/-- Looks at one file. A file that has gone in the meantime is passed over. -/
def visit (w : Watch) (m : Machine) (s : State) (p : Path) : State × Option Fault :=
  match s.tree.modified p with
  | .error .missing => (s, none)
  | .error cause => (s, some (.file ⟨cause, p⟩))
  | .ok time => if s.time? p = some time then (s, none) else w.compileOne m (s.record p time) p

def visitAll (w : Watch) (m : Machine) (s : State) : List Path → State × Option Fault
  | [] => (s, none)
  | p :: ps =>
    match w.visit m s p with
    | (s, none) => w.visitAll m s ps
    | (s, some fault) => (s, some fault)

def poll (w : Watch) (m : Machine) (s : State) : State × Option Fault := w.visitAll m s (w.files s.tree)

/-- Looks, pauses, and looks again. Each edit is what happens in one pause; in the pause after the last edit the watch
is interrupted. The number counts the pauses, those before included. -/
def run (w : Watch) (m : Machine) (pauses : Nat) (s : State) (edits : List FileTree.Edit) :
    State × Nat × Option Fault :=
  match w.poll m s with
  | (s, some fault) => (s, pauses, some fault)
  | (s, none) =>
    match m.pauseFault? pauses w.config.interval with
    | some fault => (s, pauses, some fault)
    | none =>
      match edits with
      | [] => (s, pauses + 1, none)
      | e :: es => w.run m (pauses + 1) { s with tree := s.tree.edit e } es

/-- The lines that are printed when the watch starts. -/
def banner (w : Watch) : List Name :=
  let place : Name := match w.output.bind Setting.value?, w.config.outDir with
    | some p, _ | none, some p => p.written
    | none, none => "beside sources"
  ["Watching for changes...", "  Input: " ++ w.input.written, "  Output: " ++ place, "Press Ctrl+C to stop\n"]

/-- Prints lines, up to the first that the machine refuses. -/
def announce (m : Machine) : List Name → Printed × Option Fault
  | [] => ({}, none)
  | line :: lines =>
    match m.refusal? line with
    | some fault => ({}, some fault)
    | none =>
      let (printed, fault) := announce m lines
      (onOut line ++ printed, fault)

/-- What is printed when the watch is interrupted. -/
def farewell : Printed := onOut "\nWatch stopped"

end Watch

end Trellis.Command
