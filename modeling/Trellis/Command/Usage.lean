import Trellis.Arguments
import Trellis.Path
import Trellis.Setting

/-!
# The command line of the compiler

Which commands there are, what they take and how they describe themselves. Some commands have a second, shorter name.
-/

namespace Trellis.Command

open Arguments

def version : Text := "0.2.0"

inductive Verb where
  | build
  | check
  | watch
  | tokens
  | ast
  deriving DecidableEq, Repr

/-- The commands with their names, in the order of the help text. -/
def verbs : List (Text × Verb) :=
  [("build", .build), ("b", .build), ("check", .check), ("watch", .watch), ("w", .watch), ("tokens", .tokens),
    ("ast", .ast)]

def Verb.name : Verb → Text
  | .build => "build"
  | .check => "check"
  | .watch => "watch"
  | .tokens => "tokens"
  | .ast => "ast"

structure Choices where
  output : Option (Setting Path) := none
  toOutput : Bool := false
  strict : Bool := false
  deriving DecidableEq, Repr

/-- A command with its input. -/
structure Invocation where
  verb : Verb
  input : Path
  choices : Choices := {}
  verbose : Bool := false
  deriving DecidableEq, Repr

def helpSwitch {σ : Type} : Switch σ := ⟨["-h", "--help"], .help⟩

/-- Where the output goes. -/
def outputSwitch : Switch Choices :=
  ⟨["-o", "--output"],
    .value (fun v c => .ok { c with output := some (.given (Path.ofName v)) }) fun c => { c with output := some .blank }⟩

/-- The output is printed. -/
def printSwitch : Switch Choices := ⟨["--stdout"], .flag fun c => { c with toOutput := true }⟩

/-- Errors are fatal. -/
def strictSwitch : Switch Choices := ⟨["--strict"], .flag fun c => { c with strict := true }⟩

def Verb.switches : Verb → List (Switch Choices)
  | .build => [helpSwitch, outputSwitch, printSwitch, strictSwitch]
  | .watch => [helpSwitch, outputSwitch, strictSwitch]
  | _ => [helpSwitch]

def Verb.usage (v : Verb) : Text :=
  let switches : Text := match v with
    | .build => "[-h] [-o OUTPUT] [--stdout] [--strict]"
    | .watch => "[-h] [-o OUTPUT] [--strict]"
    | _ => "[-h]"
  "usage: ygg " ++ v.name ++ " " ++ switches ++ " input\n"

def Verb.description : Verb → Text
  | .build =>
    "
positional arguments:
  input                 Input Yggdra file

options:
  -h, --help            show this help message and exit
  -o OUTPUT, --output OUTPUT
                        Output file or directory (default: input with .vue or
                        .js extension)
  --stdout              Print the generated code instead of writing a file
  --strict              Fail when the parser reports errors
"
  | .watch =>
    "
positional arguments:
  input                 Input Yggdra file or directory to watch

options:
  -h, --help            show this help message and exit
  -o OUTPUT, --output OUTPUT
                        Output file or directory
  --strict              Fail when the parser reports errors
"
  | _ =>
    "
positional arguments:
  input       Input Yggdra file

options:
  -h, --help  show this help message and exit
"

/-- What a command takes. -/
def Verb.form (v : Verb) : Form Choices :=
  { program := "ygg " ++ v.name, usage := v.usage, description := v.description, switches := v.switches
    operand := .one "input" }

/-- What the program takes: its settings are whether it logs what it does. -/
def form : Form Bool :=
  { program := "ygg"
    usage := "usage: ygg [-h] [-V] [-v] \x7bbuild,b,check,watch,w,tokens,ast\x7d ...\n"
    description :=
      "
Yggdra - compile .ygg files to Vue components and Express servers

positional arguments:
  \x7bbuild,b,check,watch,w,tokens,ast\x7d
                        Available commands
    build (b)           Compile a .ygg file
    check               Parse a file and report diagnostics
    watch (w)           Watch files and recompile on changes
    tokens              Show line tokens (debug)
    ast                 Show the syntax tree (debug)

options:
  -h, --help            show this help message and exit
  -V, --version         show program's version number and exit
  -v, --verbose         Enable debug logging
"
    switches :=
      [helpSwitch, ⟨["-V", "--version"], .version ("ygg " ++ version)⟩, ⟨["-v", "--verbose"], .flag fun _ => true⟩]
    operand := .command }

/-- What the arguments ask for: a command, or a reply. Without a command the reply is the help text. -/
def readArguments (args : List Name) : Except Reply Invocation :=
  match form.read false args with
  | .error stop => .error (form.reply stop)
  | .ok r =>
    match r.operand with
    | none => .error (if r.extras.isEmpty then form.reply .help else form.refuseExtras r.extras)
    | some (name, rest) =>
      match verbs.find? (Name.ofText ·.1 = name) with
      | none => .error (form.reply (.misuse ("argument command: " ++ notChoice name (verbs.map (·.1)))))
      | some (_, v) =>
        match v.form.read {} rest with
        | .error stop => .error (v.form.reply stop)
        | .ok s =>
          match r.extras ++ s.extras, s.operand with
          | [], some (input, _) =>
            .ok { verb := v, input := Path.ofName input, choices := s.settings, verbose := r.settings }
          | [], none => .error (v.form.reply .help)
          | extras, _ => .error (form.refuseExtras extras)

end Trellis.Command
