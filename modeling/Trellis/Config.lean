import Trellis.Decimal.Shortest
import Trellis.Fault
import Trellis.Toml.Read

/-!
# Project settings

A settings file in the working directory sets defaults: where compiled files go, whether errors are fatal, and how
long a watch waits between two looks at the files. A setting of the wrong kind is refused; the first one counts,
in the order of the checks.
-/

namespace Trellis

/-- Project settings. The output directory is seen from the directory of the settings file. -/
structure Config where
  outDir : Option Path := none
  strict : Bool := false
  interval : Binary64 := .finite false 4503599627370496 (-53)
  path : Option Path := none
  deriving DecidableEq, Repr

namespace Config

def fileName : Text := "yggdra.toml"

inductive Problem where
  | malformed
  | notTable (name : Text)
  | outDir
  | strict
  | interval
  deriving DecidableEq, Repr

def Problem.message (path : Path) : Problem → Text
  | .malformed => "TOML syntax error"
  | .notTable name => path.toText ++ ": [" ++ name ++ "] must be a table"
  | .outDir => path.toText ++ ": build.out_dir must be a string"
  | .strict => path.toText ++ ": build.strict must be true or false"
  | .interval => path.toText ++ ": watch.interval must be a positive number"

def Problem.fault (path : Path) (p : Problem) : Fault := .failure { kind := .config, message := p.message path }

/-- A table of the file; one that is absent is empty. -/
def section? (root : Toml.Table) (name : Text) : Except Problem Toml.Table :=
  match Toml.Table.get? root name with
  | none => .ok []
  | some (.table entries) => .ok entries
  | some _ => .error (.notTable name)

/-- The output directory. -/
def readOutDir (build : Toml.Table) : Except Problem (Option Text) :=
  match Toml.Table.get? build "out_dir" with
  | none => .ok none
  | some (.text t) => .ok (some t)
  | some _ => .error .outDir

/-- Whether errors are fatal. -/
def readStrict (build : Toml.Table) : Except Problem Bool :=
  match Toml.Table.get? build "strict" with
  | none => .ok false
  | some (.flag b) => .ok b
  | some _ => .error .strict

/-- The seconds between two looks; an integer may be too large for a binary number. -/
def readInterval (watch : Toml.Table) : Except Problem (Option Binary64) :=
  match Toml.Table.get? watch "interval" with
  | none => .ok (some ({} : Config).interval)
  | some (.integer n) => if n ≤ 0 then .error .interval else .ok (Binary64.ofInt? n)
  | some (.float x) => if x.isNonpositive then .error .interval else .ok (some x)
  | some _ => .error .interval

/-- The settings of a file that has been read. -/
def ofTable (path : Path) (root : Toml.Table) : Except Fault Config := do
  let refuse {α : Type} (r : Except Problem α) : Except Fault α := r.mapError (Problem.fault path)
  let build ← refuse (section? root "build")
  let watch ← refuse (section? root "watch")
  let outDir ← refuse (readOutDir build)
  let strict ← refuse (readStrict build)
  match ← refuse (readInterval watch) with
  | none => .error .overflow
  | some interval =>
    return { outDir := outDir.map fun d => path.parent.append (Path.ofName d), strict, interval, path := some path }

/-- The settings that bytes hold. -/
def ofBytes (path : Path) (bytes : Bytes) : Except Fault Config := do
  let source ← (Utf8.decode bytes).mapError Fault.bytes
  match Toml.read source with
  | .error .malformed => .error (Problem.malformed.fault path)
  | .error (.digits f) => .error (.digits f)
  | .ok root => ofTable path root

/-- The settings in a file, or in the settings file of a directory. Without such a file they are the defaults. -/
def load (t : FileTree) (p : Path) : Except Fault Config := do
  let target := match ← (t.look p).mapError Fault.file with
    | some (.directory _) => p.append (Path.ofName fileName)
    | _ => p
  match ← (t.look target).mapError Fault.file with
  | some (.file bytes _) => ofBytes target bytes
  | _ => return {}

end Config

end Trellis
