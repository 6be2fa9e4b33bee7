import Trellis.FileTree.Basic

/-!
# Changes of a file tree

Writing a file, making directories, links, setting times and removing. A change leaves every other place as it was,
apart from the time of the directory whose entries change.
-/

namespace Trellis.FileTree

def put (t : FileTree) (place : Place) (e : Entry) : FileTree :=
  { t with entries := (place, e) :: t.entries.filter fun x => x.1 ≠ place }

/-- The clock goes on. -/
def tick (t : FileTree) : FileTree := { t with clock := t.clock + 1 }

/-- The entries of a directory have changed. -/
def stamp (t : FileTree) (place : Place) : FileTree :=
  match t.entry? place with
  | some (.directory _) => if place.isEmpty then t else t.put place (.directory t.clock)
  | _ => t

/-- Makes a new entry. -/
def create (t : FileTree) (place : Place) (e : Entry) : FileTree := (t.put place e).stamp place.dropLast

/-- Writes a file, which gets the present time. The directory that holds it exists. -/
def write (t : FileTree) (p : Path) (bytes : Bytes) : Except FileFault FileTree :=
  match t.resolve true p with
  | .error cause => .error ⟨cause, p⟩
  | .ok place =>
    match t.entry? place with
    | some (.directory _) => .error ⟨.isDirectory, p⟩
    | some _ => .ok (t.put place (.file bytes t.clock))
    | none => .ok (t.create place (.file bytes t.clock))

def makeDirectory (t : FileTree) (p : Path) : Except FileCause FileTree :=
  match p.parts.getLast?, unusable? p with
  | none, _ => .error .occupied
  | some _, some cause => .error cause
  | some name, none =>
    match t.find p.parent, t.resolve true p.parent with
    | .ok (.directory _), .ok place =>
      if name = upward || (t.entry? (place ++ [name])).isSome then .error .occupied
      else if isLongName name then .error .tooLong
      else .ok (t.create (place ++ [name]) (.directory t.clock))
    | .ok _, .ok _ => .error .notDirectory
    | .error cause, _ | _, .error cause => .error cause

/-- Makes a directory and those above it that are missing; one that is there already is kept. What was made before a
fault stays. -/
def makeDirectories (t : FileTree) (p : Path) : FileTree × Option FileFault :=
  let settle (t : FileTree) (cause : FileCause) : FileTree × Option FileFault :=
    if cause ≠ .missing && t.isDirectory p then (t, none) else (t, some ⟨cause, p⟩)
  match t.makeDirectory p with
  | .ok t => (t, none)
  | .error cause =>
    if h : cause = .missing ∧ p.parts ≠ [] then
      have := List.length_pos_iff.2 h.2
      match makeDirectories t p.parent with
      | (t, some fault) => (t, some fault)
      | (t, none) =>
        match t.makeDirectory p with
        | .ok t => (t, none)
        | .error cause => settle t cause
    else settle t cause
termination_by p.parts.length
decreasing_by
  simp only [Path.parent, List.length_dropLast]
  omega

def makeLink (t : FileTree) (p target : Path) : FileTree :=
  match t.resolve false p with
  | .ok place => t.create place (.link target)
  | .error _ => t

def setTime (t : FileTree) (p : Path) (time : Nat) : FileTree :=
  match t.resolve true p with
  | .error _ => t
  | .ok place =>
    match t.entry? place with
    | some (.file bytes _) => t.put place (.file bytes time)
    | some (.directory _) => t.put place (.directory time)
    | _ => t

/-- Removes what stands at a path, with everything below it. A link is removed itself. -/
def remove (t : FileTree) (p : Path) : FileTree :=
  match t.resolve false p with
  | .error _ => t
  | .ok place =>
    { t with entries := t.entries.filter fun (key, _) => !place.isPrefixOf key }.stamp place.dropLast

/-- What happens to the files at one time while the program waits. -/
structure Edit where
  directories : List Path := []
  links : List (Path × Path) := []
  written : List (Path × Bytes) := []
  quiet : List (Path × Bytes) := []
  touched : List Path := []
  removed : List Path := []
  deriving Repr

/-- Writes a file, making the directories above it. -/
def store (t : FileTree) (p : Path) (bytes : Bytes) : FileTree :=
  let t := (t.makeDirectories p.parent).1
  (t.write p bytes).toOption.getD t

/-- Writes a file and keeps its time. -/
def storeQuietly (t : FileTree) (p : Path) (bytes : Bytes) : FileTree :=
  match t.modified p with
  | .ok time => (t.store p bytes).setTime p time
  | .error _ => t.store p bytes

/-- Applies an edit: directories, links, files, times, removals. -/
def edit (t : FileTree) (e : Edit) : FileTree :=
  let t := t.tick
  let t := e.directories.foldl (fun t p => (t.makeDirectories p).1) t
  let t := e.links.foldl (fun t (p, target) => ((t.makeDirectories p.parent).1).makeLink p target) t
  let t := e.written.foldl (fun t (p, bytes) => t.store p bytes) t
  let t := e.quiet.foldl (fun t (p, bytes) => t.storeQuietly p bytes) t
  let t := e.touched.foldl (fun t p => t.setTime p t.clock) t
  e.removed.foldl remove t

end Trellis.FileTree
