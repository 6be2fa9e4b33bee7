import Trellis.Path

/-!
# File trees

A file tree maps places, the components below the root, to files, directories and symbolic links. A path is looked
up from the working directory or from the root, through links, and `..` leads to the directory above the place
reached. Names and written paths have a greatest length, and a path with a null character is never looked up. Every
change of a file or of the entries of a directory sets a modification time from a clock that only goes forward.
-/

namespace Trellis

/-- A place: the components from the root down, without links and `..`. -/
abbrev Place := List Name

/-- What stands at a place. -/
inductive Entry where
  | directory (time : Nat)
  | file (bytes : Bytes) (time : Nat)
  | link (target : Path)
  deriving DecidableEq, Repr

/-- A file tree with a working directory. -/
structure FileTree where
  home : Place
  clock : Nat := 0
  entries : List (Place × Entry) := []
  deriving DecidableEq, Repr

/-- Why a path cannot be used. -/
inductive FileCause where
  | missing
  | occupied
  | notDirectory
  | isDirectory
  | tooManyLinks
  | tooLong
  | nullByte
  deriving DecidableEq, Repr

/-- A path that cannot be used, and why. -/
structure FileFault where
  cause : FileCause
  path : Path
  deriving DecidableEq, Repr

def FileCause.message : FileCause → Text
  | .missing => "[Errno 2] No such file or directory"
  | .occupied => "[Errno 17] File exists"
  | .notDirectory => "[Errno 20] Not a directory"
  | .isDirectory => "[Errno 21] Is a directory"
  | .tooManyLinks => "[Errno 40] Too many levels of symbolic links"
  | .tooLong => "[Errno 36] File name too long"
  | .nullByte => "embedded null byte"

/-- The fault is one of the file system; a null character is refused before. -/
def FileFault.isSystem (f : FileFault) : Bool := f.cause ≠ .nullByte

def FileFault.message (f : FileFault) : Text :=
  if f.isSystem then f.cause.message ++ ": " ++ f.path.written.quoted else f.cause.message

namespace FileTree

/-- A tree that holds nothing but the working directory and those above it. -/
def empty (home : Place) : FileTree :=
  { home := home, entries := (List.range home.length).map fun n => (home.take (n + 1), .directory 0) }

def homePath (t : FileTree) : Path := { root := "/", parts := t.home }

/-- What stands at a place. The root is a directory. -/
def entry? (t : FileTree) (place : Place) : Option Entry :=
  if place.isEmpty then some (.directory 0) else t.entries.lookup place

/-- The most links that one path may lead through. -/
def maxLinks : Nat := 40

/-- The most bytes of a name. -/
def maxNameBytes : Nat := 255

/-- The most bytes of a written path. -/
def maxPathBytes : Nat := 4095

/-- The name has too many bytes. -/
def isLongName (name : Name) : Bool := name.bytes.length > maxNameBytes

/-- Why a path cannot be looked up at all. -/
def unusable? (p : Path) : Option FileCause :=
  if p.parts.any (·.contains (.char '\x00')) then some .nullByte
  else if p.written.bytes.length > maxPathBytes then some .tooLong
  else none

/-- The component that leads to the directory above. -/
def upward : Name := ".."

/-- Walks from a directory along components. The last component need not exist; a link there is followed when
`follow` is set. Behind a link that is followed, `jump` goes on. -/
def walkOn (t : FileTree) (follow : Bool) (jump : Place → List Name → Except FileCause Place) (here : Place) :
    List Name → Except FileCause Place
  | [] => .ok here
  | part :: rest =>
    if part = upward then t.walkOn follow jump here.dropLast rest
    else if isLongName part then .error .tooLong
    else
      match t.entry? (here ++ [part]) with
      | none => if rest.isEmpty then .ok (here ++ [part]) else .error .missing
      | some (.directory _) => t.walkOn follow jump (here ++ [part]) rest
      | some (.file _ _) => if rest.isEmpty then .ok (here ++ [part]) else .error .notDirectory
      | some (.link target) =>
        if rest.isEmpty && !follow then .ok (here ++ [part])
        else jump (if target.isAbsolute then [] else here) (target.parts ++ rest)

/-- Walks through at most `links` links. -/
def walk (t : FileTree) (follow : Bool) : (links : Nat) → Place → List Name → Except FileCause Place
  | 0 => t.walkOn follow fun _ _ => .error .tooManyLinks
  | links + 1 => t.walkOn follow (t.walk follow links)

/-- The place of a path. -/
def resolve (t : FileTree) (follow : Bool) (p : Path) : Except FileCause Place :=
  match unusable? p with
  | some cause => .error cause
  | none => t.walk follow maxLinks (if p.isAbsolute then [] else t.home) p.parts

/-- What a path leads to. -/
def find (t : FileTree) (p : Path) : Except FileCause Entry := do
  match t.entry? (← t.resolve true p) with
  | some e => return e
  | none => .error .missing

/-- A look at a path: what it leads to, if anything. Only at one that is too long nobody can look. -/
def look (t : FileTree) (p : Path) : Except FileFault (Option Entry) :=
  match t.find p with
  | .ok e => .ok (some e)
  | .error .tooLong => .error ⟨.tooLong, p⟩
  | .error _ => .ok none

def isDirectory (t : FileTree) (p : Path) : Bool :=
  match t.find p with
  | .ok (.directory _) => true
  | _ => false

def isFile (t : FileTree) (p : Path) : Bool :=
  match t.find p with
  | .ok (.file _ _) => true
  | _ => false

/-- The modification time of what a path leads to. -/
def modified (t : FileTree) (p : Path) : Except FileCause Nat := do
  match ← t.find p with
  | .directory time | .file _ time => return time
  | .link _ => .error .missing

def read (t : FileTree) (p : Path) : Except FileFault Bytes :=
  match t.find p with
  | .ok (.file bytes _) => .ok bytes
  | .ok (.directory _) => .error ⟨.isDirectory, p⟩
  | .ok (.link _) => .error ⟨.missing, p⟩
  | .error cause => .error ⟨cause, p⟩

/-- The places below a directory, with what stands there. -/
def below (t : FileTree) (place : Place) : List (Place × Entry) :=
  t.entries.filterMap fun (key, e) =>
    if place.isPrefixOf key && key.length > place.length then some (key.drop place.length, e) else none

/-- The paths below a place, behind the path `p`, whose names end in `suffix`. Links to directories are not entered. -/
def found (t : FileTree) (suffix : Name) (p : Path) (place : Place) : List Path :=
  ((t.below place).filter fun x => suffix.isSuffixOf (x.1.getLastD [])).map fun x => { p with parts := p.parts ++ x.1 }

/-- The paths below a directory whose names end in `suffix`, in order. -/
def search (t : FileTree) (suffix : Name) (p : Path) : List Path :=
  match t.find p, t.resolve true p with
  | .ok (.directory _), .ok place => (t.found suffix p place).mergeSort Path.le
  | _, _ => []

end FileTree

end Trellis
