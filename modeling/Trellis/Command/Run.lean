import Trellis.Command.Watch
import Trellis.Document.Listing

/-!
# Running commands

A command takes a file tree to a file tree, prints, and ends with an exit code. A fault that a command does not
report itself ends the program.
-/

namespace Trellis.Command

/-- How a command ends. -/
inductive Ending where
  | exit (code : Nat)
  | fault (f : Fault)
  deriving DecidableEq, Repr

/-- What a command did. The pauses are those of a watch, with the seconds that each one took. -/
structure Outcome where
  tree : FileTree
  printed : Printed := {}
  ending : Ending
  pauses : Nat := 0
  interval : Binary64 := ({} : Config).interval
  deriving DecidableEq, Repr

/-- The line about an input that is not there. -/
def notFound (what : Text) (p : Path) : Printed := onErr ("Error: " ++ what ++ " not found: " ++ p.toText)

/-- How a command ends that finds no input, or cannot look for it. -/
def withoutInput? (t : FileTree) (what : Text) (p : Path) : Option Outcome :=
  match t.look p with
  | .error f => some { tree := t, ending := .fault (.file f) }
  | .ok none => some { tree := t, printed := notFound what p, ending := .exit 1 }
  | .ok (some _) => none

/-- A failure or a fault of the file system is printed; any other fault is not caught. -/
def isPrinted : Fault → Bool
  | .failure _ => true
  | .file f => f.isSystem
  | _ => false

/-- A fault ends a command. -/
def giveUp (t : FileTree) (printed : Printed) (f : Fault) : Outcome :=
  if isPrinted f then { tree := t, printed := printed ++ onErr ("Error: " ++ f.message), ending := .exit 1 }
  else { tree := t, printed := printed, ending := .fault f }

/-- A command ends with 0 when it has printed its last text, if the machine prints it. -/
def conclude (m : Machine) (t : FileTree) (printed : Printed) (text : Name) : Outcome :=
  match m.refusal? text with
  | none => { tree := t, printed := printed ++ { out := text }, ending := .exit 0 }
  | some f => { tree := t, printed := printed, ending := .fault f }

/-- Compiles a file and prints the result. -/
def print (t : FileTree) (m : Machine) (config : Config) (i : Invocation) : Outcome :=
  match compileFile t i.verbose (i.choices.strict || config.strict) i.input with
  | (printed, .error f) => giveUp t printed f
  | (printed, .ok c) =>
    if c.success then conclude m t printed (c.written i.input.name)
    else { tree := t, printed := printed, ending := .exit 1 }

/-- Tells what became of a file that was to be compiled. -/
def finishBuild (m : Machine) (input : Path) (t : FileTree) (printed : Printed) : Result → Outcome
  | .written target => conclude m t printed ("Compiled: " ++ input.written ++ " -> " ++ target.written ++ "\n")
  | .failed => { tree := t, printed := printed, ending := .exit 1 }
  | .stopped f => giveUp t printed f

/-- Compiles a file. -/
def build (t : FileTree) (i : Invocation) (m : Machine) : Outcome :=
  match withoutInput? t "File" i.input with
  | some o => o
  | none =>
    match Config.load t t.homePath with
    | .error f => giveUp t {} f
    | .ok config =>
      if i.choices.toOutput then print t m config i
      else
        let (t, printed, result) := compileToFile t config i.verbose i.choices.strict i.choices.output i.input
        finishBuild m i.input t printed result

/-- Reports the diagnostics of a file. -/
def check (t : FileTree) (i : Invocation) (m : Machine) : Outcome :=
  match withoutInput? t "File" i.input with
  | some o => o
  | none =>
    match readSource t i.input with
    | .error f => giveUp t {} f
    | .ok source =>
      let name := i.input.written
      let ds := (Document.read (some i.input.toText) source).diagnostics
      if ds.isEmpty then conclude m t {} ("OK: " ++ name ++ " (no problems found)\n")
      else
        let errors := (Diagnostic.errors ds).length
        let summary : Name := name ++ ": " ++ Text.ofNat errors ++ " error(s), " ++ Text.ofNat (ds.length - errors)
          ++ " warning(s)"
        let shown := showDiagnostics source ds
        if errors > 0 then { tree := t, printed := shown ++ onErr ("Failed: " ++ summary.shown), ending := .exit 1 }
        else conclude m t shown ("OK: " ++ summary ++ "\n")

/-- Prints what is made of a source. -/
def inspect (t : FileTree) (i : Invocation) (present : Text → Text → Text) : Outcome :=
  match withoutInput? t "File" i.input with
  | some o => o
  | none =>
    match readSource t i.input with
    | .error f => { tree := t, ending := .fault f }
    | .ok source => { tree := t, printed := { out := present i.input.toText source }, ending := .exit 0 }

def tokenLines (source : Text) : Text := (LineToken.tokenize source).flatMap fun k => k.listing ++ "\n"

def treeLines (name source : Text) : Text := (Document.read (some name) source).listing ++ "\n"

/-- Starts a watch, or tells why it cannot start. -/
def startWatch (t : FileTree) (i : Invocation) : Except Outcome Watch :=
  match withoutInput? t "Path" i.input with
  | some o => .error o
  | none =>
    match Config.load t t.homePath with
    | .error (.failure f) => .error (giveUp t {} (.failure f))
    | .error f => .error { tree := t, ending := .fault f }
    | .ok config =>
      let w : Watch := ⟨i.input, i.choices.output, config, i.choices.strict, i.verbose⟩
      if !t.isDirectory i.input then .ok w
      else
        match askedPath .suffix i.choices.output with
        | .error need => .error { tree := t, ending := .fault (.blank need) }
        | .ok none => .ok w
        | .ok (some o) =>
          if o.suffix.isEmpty then .ok w
          else
            .error
              { tree := t, printed := onErr "Error: --output must be a directory when watching a directory"
                ending := .exit 1 }

/-- Watches files while edits come in. -/
def watch (t : FileTree) (i : Invocation) (m : Machine) (edits : List FileTree.Edit) : Outcome :=
  match startWatch t i with
  | .error o => o
  | .ok w =>
    match Watch.announce m w.banner with
    | (printed, some f) => { tree := t, printed, ending := .fault f }
    | (printed, none) =>
      match w.run m 0 { tree := t, printed } edits with
      | (s, pauses, some f) =>
        { tree := s.tree, printed := s.printed, ending := .fault f, pauses, interval := w.config.interval }
      | (s, pauses, none) =>
        { tree := s.tree, printed := s.printed ++ Watch.farewell, ending := .exit 0, pauses
          interval := w.config.interval }

def run (t : FileTree) (i : Invocation) (m : Machine) (edits : List FileTree.Edit) : Outcome :=
  match i.verb with
  | .build => build t i m
  | .check => check t i m
  | .watch => watch t i m edits
  | .tokens => inspect t i fun _ source => tokenLines source
  | .ast => inspect t i treeLines

/-- Runs the program on its arguments. -/
def start (t : FileTree) (args : List Name) (m : Machine) (edits : List FileTree.Edit) : Outcome :=
  match readArguments args with
  | .error r => { tree := t, printed := ⟨r.out, r.err⟩, ending := .exit r.exit }
  | .ok i => run t i m edits

end Trellis.Command
