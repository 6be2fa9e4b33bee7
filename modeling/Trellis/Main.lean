import Std.Time.DateTime.Timestamp
import Trellis.Command.Run

/-!
# The program

Loads the part of the disk that a command looks at into a file tree, runs the command on it, prints what it prints
and writes what it has changed. A watch does so for every look at its files, until it is interrupted.
-/

namespace Trellis.Disk

/-- A modification time in nanoseconds. -/
def timeOf (m : IO.FS.Metadata) : Nat := (m.modified.sec * 1000000000 + m.modified.nsec.toNat).toNat

/-- Adds what stands on the disk at a path, and at the directories on the way to it. -/
def load (t : FileTree) (p : Path) : IO FileTree := do
  let here ← IO.currentDir
  let mut t := t
  for n in List.range (p.parts.length + 1) do
    let q := { p with parts := p.parts.take n }
    let file := here / String.ofList q.toText
    if ← file.pathExists then
      let time := timeOf (← file.metadata)
      let entry ←
        if ← file.isDir then pure (Entry.directory time)
        else pure (Entry.file (← IO.FS.readBinFile file).toList time)
      if let .ok place := t.resolve true q then t := t.put place entry
  return t

def loadBelow (t : FileTree) (p : Path) : IO FileTree := do
  let top := (← IO.currentDir) / String.ofList p.toText
  let mut t := t
  if ← top.isDir then
    for file in ← top.walkDir do
      let q := Path.ofName file.toString.toList
      if Command.sourceSuffix.isSuffixOf q.name then t ← load t q
  return t

/-- The part of the disk that a command looks at. -/
def snapshot (i : Command.Invocation) : IO FileTree := do
  let home := Path.ofName (← IO.currentDir).toString.toList
  let mut t := FileTree.empty home.parts
  for p in [home.append (Path.ofName Config.fileName), i.input] ++ (i.choices.output.bind Setting.value?).toList do
    t ← load t p
  if let .ok { outDir := some d, .. } := Config.load t t.homePath then t ← load t d
  if i.verb = .watch then loadBelow t i.input else return t

/-- Writes what has changed, directories before what they hold. -/
def save (old new : FileTree) : IO Unit := do
  for (place, entry) in new.entries.mergeSort fun a b => a.1.length ≤ b.1.length do
    if old.entry? place ≠ some entry then
      let file := String.ofList (Path.toText ⟨"/", place⟩)
      match entry with
      | .directory _ => IO.FS.createDirAll file
      | .file bytes _ => IO.FS.writeBinFile file ⟨bytes.toArray⟩
      | .link _ => pure ()

def print (p : Command.Printed) : IO Unit := do
  IO.print (String.ofList p.out.shown)
  (← IO.getStdout).flush
  IO.eprint (String.ofList p.err)

def twoDigits (n : Nat) : Text := if n < 10 then '0' :: Text.ofNat n else Text.ofNat n

def timeOfDay : IO Text := do
  let seconds := ((← Std.Time.Timestamp.now).toSecondsSinceUnixEpoch.val % 86400).toNat
  return twoDigits (seconds / 3600) ++ ":" ++ twoDigits (seconds / 60 % 60) ++ ":" ++ twoDigits (seconds % 60)

/-- The machine as it is now. -/
def machine : IO Command.Machine := do
  let now ← IO.monoNanosNow
  return { stamp := ← timeOfDay, strictOutput := true, clock := .running fun _ => now }

/-- The milliseconds of a pause, at most as many as one pause can have. -/
def milliseconds (x : Binary64) : UInt32 :=
  let count := match x with
    | .finite _ m e =>
      let (num, den) := Binary64.ratio m e
      num * 1000 / den
    | _ => 4294967295
  if count < 4294967295 then count.toUInt32 else 4294967295

def finish : Command.Ending → IO UInt32
  | .exit code => return code.toUInt32
  | .fault f => do
    IO.eprintln (String.ofList f.message)
    return 1

def runOnce (i : Command.Invocation) : IO UInt32 := do
  let t ← snapshot i
  let o := Command.run t i (← machine) []
  print o.printed
  save t o.tree
  finish o.ending

/-- Watches until a fault or an interruption. -/
def runWatch (i : Command.Invocation) : IO UInt32 := do
  match Command.startWatch (← snapshot i) i with
  | .error o =>
    print o.printed
    finish o.ending
  | .ok w =>
    let (banner, fault) := Command.Watch.announce (← machine) w.banner
    print banner
    if let some f := fault then return ← finish (.fault f)
    let mut seen := []
    repeat
      let t ← snapshot i
      let (s, fault) := w.poll (← machine) { tree := t, seen := seen }
      print s.printed
      save t s.tree
      if let some f := fault then return ← finish (.fault f)
      if let some f := (← machine).pauseFault? 0 w.config.interval then return ← finish (.fault f)
      seen := s.seen
      IO.sleep (milliseconds w.config.interval)
    return 0

end Trellis.Disk

def main (args : List String) : IO UInt32 :=
  match Trellis.Command.readArguments (args.map fun a => (a.toList : Trellis.Name)) with
  | .error r => do
    Trellis.Disk.print ⟨r.out, r.err⟩
    return r.exit.toUInt32
  | .ok i => if i.verb = .watch then Trellis.Disk.runWatch i else Trellis.Disk.runOnce i
