import Trellis.Arguments
import Trellis.Setting
import Trellis.Text.Integer

/-!
# Starting the editor server

The server talks over standard input and output, or listens on a port. It logs from a chosen level on.
-/

namespace Trellis.Editor

open Arguments

/-- How the server talks to the editor. -/
inductive Transport where
  | streams
  | socket (host : Setting Name) (port : Setting Int)
  deriving DecidableEq, Repr

/-- The settings of the server. -/
structure Launch where
  listens : Bool := false
  host : Setting Name := .given "127.0.0.1"
  port : Setting Int := .given 2087
  level : Setting Text := .given "info"
  deriving DecidableEq, Repr

def Launch.transport (l : Launch) : Transport := if l.listens then .socket l.host l.port else .streams

def levels : List Text := ["debug", "info", "warning", "error"]

/-- The name of the level in the log. -/
def Launch.levelName (l : Launch) : Except Need Text := (l.level.valueFor .level).map (·.map Char.toUpper)

def setPort (v : Name) (l : Launch) : Except Text Launch :=
  match v.text?.bind Text.toInt? with
  | some n => .ok { l with port := .given n }
  | none => .error ("invalid int value: " ++ v.quoted)

def setLevel (v : Name) (l : Launch) : Except Text Launch :=
  match levels.find? (Name.ofText · = v) with
  | some level => .ok { l with level := .given level }
  | none => .error (notChoice v levels)

/-- What the server takes. -/
def form : Form Launch :=
  { program := "ygg-lsp"
    usage :=
      "usage: ygg-lsp [-h] [--tcp] [--host HOST] [--port PORT]
               [--log-level \x7bdebug,info,warning,error\x7d]
"
    description :=
      "
Yggdra Language Server

options:
  -h, --help            show this help message and exit
  --tcp                 Start server in TCP mode instead of stdio
  --host HOST           Host to bind to in TCP mode (default: 127.0.0.1)
  --port PORT           Port to listen on in TCP mode (default: 2087)
  --log-level \x7bdebug,info,warning,error\x7d
                        Logging level (default: info)
"
    switches :=
      [⟨["-h", "--help"], .help⟩, ⟨["--tcp"], .flag fun l => { l with listens := true }⟩,
        ⟨["--host"], .value (fun v l => .ok { l with host := .given v }) fun l => { l with host := .blank }⟩,
        ⟨["--port"], .value setPort fun l => { l with port := .blank }⟩,
        ⟨["--log-level"], .value setLevel fun l => { l with level := .blank }⟩]
    operand := .nothing }

/-- The settings that the arguments ask for, or a reply. -/
def readArguments (args : List Name) : Except Reply Launch :=
  match form.read {} args with
  | .error stop => .error (form.reply stop)
  | .ok r => if r.extras.isEmpty then .ok r.settings else .error (form.refuseExtras r.extras)

end Trellis.Editor
