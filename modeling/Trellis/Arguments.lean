import Trellis.Name
import Trellis.Text.Digit

/-!
# Command line arguments

Arguments are switches and operands in any order. A switch has short and long names; a long name may be cut as long
as one name matches, a value stands behind an equals sign, behind a short name, or in the next argument, and short
switches without a value may share one dash, where the letters behind the first may also follow an equals sign. A
double dash ends the switches. What fits nowhere is kept apart, so that the caller can refuse it. An argument may name a
file, so it need not be a text.
-/

namespace Trellis

namespace Arguments

/-- What a switch does to the settings. A value may be refused with a reason; a double dash in its place is taken
away, and leaves the setting blank. -/
inductive Effect (σ : Type) where
  | help
  | version (text : Text)
  | flag (set : σ → σ)
  | value (set : Name → σ → Except Text σ) (clear : σ → σ)

structure Switch (σ : Type) where
  names : List Text
  effect : Effect σ

/-- What stands beside the switches: nothing, one operand that is required, or a command with arguments of its own. -/
inductive Operand where
  | nothing
  | one (name : Text)
  | command
  deriving DecidableEq, Repr

/-- What a program or a command takes, and how it describes itself. -/
structure Form (σ : Type) where
  program : Text
  usage : Text
  description : Text
  switches : List (Switch σ)
  operand : Operand

/-- Why reading ends before the program starts. -/
inductive Stop where
  | help
  | version (text : Text)
  | misuse (reason : Text)
  deriving DecidableEq, Repr

variable {σ : Type}

/-- The names of a switch, as messages show them. -/
def Switch.label (s : Switch σ) : Text := Text.join "/" s.names

def Switch.takesValue (s : Switch σ) : Bool :=
  match s.effect with
  | .value _ _ => true
  | _ => false

/-- A reason that names the switch. -/
def Switch.misuse (s : Switch σ) (reason : Text) : Text := "argument " ++ s.label ++ ": " ++ reason

/-- What an argument is. A switch may have something attached to it. -/
inductive Kind (σ : Type) where
  | operand
  | terminator
  | unknown
  | switch (s : Switch σ) (name : Name) (attached : Option Name)

/-- The names of a form with their switches, in order. -/
def Form.names (f : Form σ) : List (Name × Switch σ) :=
  f.switches.flatMap fun s => s.names.map fun n => (Name.ofText n, s)

/-- The switch of a name. -/
def Form.find? (f : Form σ) (name : Name) : Option (Switch σ) := f.names.lookup name

/-- A name and what is attached to it behind an equals sign. -/
def splitAttached (a : Name) : Name × Option Name :=
  match Text.cut? (.char '=') a with
  | some (name, value) => (name, some value)
  | none => (a, none)

/-- The argument that ends the switches; long names start with it. -/
def terminator : Name := "--"

/-- The switches that an argument may mean: those whose long names it begins, or the short one it starts with. -/
def Form.candidates (f : Form σ) (a : Name) : List (Name × Switch σ × Option Name) :=
  if terminator.isPrefixOf a then
    let (start, attached) := splitAttached a
    f.names.filterMap fun (name, s) => if start.isPrefixOf name then some (name, s, attached) else none
  else
    f.names.filterMap fun (name, s) =>
      if name = a.take 2 then some (name, s, some (a.drop 2))
      else if a.isPrefixOf name then some (name, s, none)
      else none

/-- The argument is written like a negative number. -/
def isNegative (a : Name) : Bool :=
  match a.text? with
  | some ('-' :: t) =>
    let t := if Text.endsWith t "\n" then t.dropLast else t
    let rest := t.dropWhile Text.isDecimal
    if rest.isEmpty then !t.isEmpty
    else match rest with
      | '.' :: fraction => !fraction.isEmpty && fraction.all Text.isDecimal
      | _ => false
  | _ => false

/-- What an argument is, before any double dash. -/
def Form.classify (f : Form σ) (a : Name) : Except Text (Kind σ) :=
  if a.length < 2 || a.head? ≠ some (.char '-') then .ok .operand
  else
    match f.find? a with
    | some s => .ok (.switch s a none)
    | none =>
      let (name, attached) := splitAttached a
      match if attached.isSome then f.find? name else none with
      | some s => .ok (.switch s name attached)
      | none =>
        match f.candidates a with
        | [] => .ok (if isNegative a || a.contains (.char ' ') then .operand else .unknown)
        | [(name, s, attached)] => .ok (.switch s name attached)
        | several =>
          .error ("ambiguous option: " ++ a.shown ++ " could match " ++ Text.join ", " (several.map (·.1.shown)))

/-- What the arguments are. Everything behind a double dash is an operand. -/
def Form.classifyAll (f : Form σ) : List Name → Except Text (List (Name × Kind σ))
  | [] => .ok []
  | a :: as =>
    if a = terminator then .ok ((a, .terminator) :: as.map (·, .operand))
    else do
      let kind ← f.classify a
      return (a, kind) :: (← f.classifyAll as)

/-- The switches that one argument turns out to hold: those with their values, and one that takes the next argument
as its value. -/
structure Bundle (σ : Type) where
  done : List (Switch σ × Name) := []
  open? : Option (Switch σ) := none

/-- A bundle with one more switch in front. -/
def Bundle.push (s : Switch σ) (b : Bundle σ) : Bundle σ := { b with done := (s, []) :: b.done }

/-- A switch without an attached value. -/
def Bundle.single (s : Switch σ) : Bundle σ := if s.takesValue then { open? := some s } else { done := [(s, [])] }

/-- The name has one dash. -/
def isShort (name : Name) : Bool := ((name.drop 1).head?).any (· ≠ .char '-')

/-- Reads what is attached to a switch: its value, or more short switches. Letters that are no switch are refused
together. -/
def Form.bundle (f : Form σ) (s : Switch σ) (name : Name) : Name → Except Text (Bundle σ)
  | [] => if s.takesValue then .ok { done := [(s, [])] } else .error (s.misuse "ignored explicit argument ''")
  | c :: t =>
    if s.takesValue then .ok { done := [(s, c :: t)] }
    else
      match if isShort name then f.find? [.char '-', c] else none with
      | none => .error (s.misuse ("ignored explicit argument " ++ Name.quoted (c :: t)))
      | some next =>
        match t with
        | [] => .ok ((Bundle.single next).push s)
        | d :: t => (f.bundle next [.char '-', c] (d :: t)).map (Bundle.push s)

/-- What has been read: the settings, the operand with the arguments that belong to a command, and what fits
nowhere. -/
structure Reading (σ : Type) where
  settings : σ
  operand : Option (Name × List Name) := none
  extras : List Name := []

/-- Lets switches act in order. -/
def Reading.act (r : Reading σ) : List (Switch σ × Name) → Except Stop (Reading σ)
  | [] => .ok r
  | (s, v) :: rest =>
    match s.effect with
    | .help => .error .help
    | .version text => .error (.version text)
    | .flag set => Reading.act { r with settings := set r.settings } rest
    | .value set clear =>
      match if v = terminator then .ok (clear r.settings) else set v r.settings with
      | .ok settings => Reading.act { r with settings := settings } rest
      | .error reason => .error (.misuse (s.misuse reason))

/-- Keeps an argument apart. -/
def Reading.skip (r : Reading σ) (a : Name) : Reading σ := { r with extras := r.extras ++ [a] }

/-- An operand may still come. -/
def Reading.waits (r : Reading σ) (o : Operand) : Bool := r.operand.isNone && o ≠ .nothing

/-- Reads classified arguments. A command takes all that follows. -/
def Form.readAll (f : Form σ) (r : Reading σ) : List (Name × Kind σ) → Except Stop (Reading σ)
  | [] => .ok r
  | (a, .operand) :: rest =>
    if !r.waits f.operand then f.readAll (r.skip a) rest
    else if f.operand = .command then .ok { r with operand := some (a, rest.map (·.1)) }
    else
      let r := { r with operand := some (a, []) }
      match rest with
      | (_, .terminator) :: rest => f.readAll r rest
      | rest => f.readAll r rest
  | (a, .terminator) :: rest =>
    match rest with
    | (b, .operand) :: rest =>
      if !r.waits f.operand then f.readAll (r.skip a) ((b, .operand) :: rest)
      else if f.operand = .command then .ok { r with operand := some (a, b :: rest.map (·.1)) }
      else f.readAll { r with operand := some (b, []) } rest
    | rest => f.readAll (r.skip a) rest
  | (a, .unknown) :: rest => f.readAll (r.skip a) rest
  | (_, .switch s name attached) :: rest =>
    let bundle : Except Text (Bundle σ) := match attached with
      | none => .ok (.single s)
      | some t => f.bundle s name t
    match bundle with
    | .error reason => .error (.misuse reason)
    | .ok bundle =>
      match bundle.open? with
      | none => do f.readAll (← r.act bundle.done) rest
      | some last =>
        match rest with
        | (v, .operand) :: rest => do f.readAll (← r.act (bundle.done ++ [(last, v)])) rest
        | _ => .error (.misuse (last.misuse "expected one argument"))
termination_by args => args.length

/-- Reads arguments. An operand that is required must have come. -/
def Form.read (f : Form σ) (settings : σ) (args : List Name) : Except Stop (Reading σ) :=
  match f.classifyAll args with
  | .error reason => .error (.misuse reason)
  | .ok args => do
    let r ← f.readAll { settings } args
    match f.operand, r.operand with
    | .one name, none => .error (.misuse ("the following arguments are required: " ++ name))
    | _, _ => return r

/-- What a program prints instead of starting: exit code, output and error output. -/
structure Reply where
  exit : Nat
  out : Text := []
  err : Text := []
  deriving DecidableEq, Repr

def Form.help (f : Form σ) : Text := f.usage ++ f.description

/-- The reply to a stop. -/
def Form.reply (f : Form σ) : Stop → Reply
  | .help => { exit := 0, out := f.help }
  | .version text => { exit := 0, out := text ++ "\n" }
  | .misuse reason => { exit := 2, err := f.usage ++ f.program ++ ": error: " ++ reason ++ "\n" }

/-- The reply to arguments that fit nowhere. -/
def Form.refuseExtras (f : Form σ) (extras : List Name) : Reply :=
  f.reply (.misuse ("unrecognized arguments: " ++ Text.join " " (extras.map Name.shown)))

/-- The reason to refuse a value that is not among the choices. -/
def notChoice (v : Name) (choices : List Text) : Text :=
  "invalid choice: " ++ v.quoted ++ " (choose from " ++ Text.join ", " (choices.map Text.quoted) ++ ")"

end Arguments

end Trellis
