import Trellis.Name

/-!
# Paths

A path is a root (none, one slash, or exactly two) and its components. Empty components and `.` are dropped when
a path is read, `..` stays. A component is a name and need not be a text.
-/

namespace Trellis

structure Path where
  root : Text
  parts : List Name
  deriving DecidableEq, Repr

namespace Path

/-- The piece of a written path is a component. -/
def isComponent (piece : Name) : Bool := !piece.isEmpty && piece ≠ [.char '.']

def ofName (n : Name) : Path :=
  let slashes := (n.takeWhile (· = .char '/')).length
  { root := if slashes = 0 then [] else if slashes = 2 then "//" else "/"
    parts := (Text.splitAt (.char '/') n).filter isComponent }

/-- The written path; the empty one is a dot. -/
def written (p : Path) : Name :=
  if p.root.isEmpty && p.parts.isEmpty then ("." : Text) else Name.ofText p.root ++ Name.join [.char '/'] p.parts

/-- The path as messages show it. -/
def toText (p : Path) : Text := p.written.shown

/-- The last component, empty when there is none. -/
def name (p : Path) : Name := p.parts.getLastD []

def isAbsolute (p : Path) : Bool := !p.root.isEmpty

/-- The stem and the suffix of a name. A suffix starts at the last dot, which is neither the first nor the last
character. -/
def splitName (name : Name) : Name × Name :=
  match Text.cutLast? (.char '.') name with
  | some (stem, ext) => if stem.isEmpty || ext.isEmpty then (name, []) else (stem, .char '.' :: ext)
  | none => (name, [])

def suffix (p : Path) : Name := (splitName p.name).2

def parent (p : Path) : Path := { p with parts := p.parts.dropLast }

/-- `q` seen from `p`; an absolute `q` stands alone. -/
def append (p q : Path) : Path := if q.isAbsolute then q else { p with parts := p.parts ++ q.parts }

def withName (p : Path) (name : Name) : Path := { p with parts := p.parts.dropLast ++ [name] }

/-- Why a path takes no suffix: the text is none, or the path has no last component. -/
inductive SuffixFault where
  | notSuffix (suffix : Text)
  | noName (path : Path)
  deriving DecidableEq, Repr

def SuffixFault.message : SuffixFault → Text
  | .notSuffix suffix => "Invalid suffix " ++ Text.quoted suffix
  | .noName path => "PosixPath(" ++ path.written.quoted ++ ") has an empty name"

/-- A suffix is empty, or a dot and more, without a slash. -/
def isSuffix (suffix : Text) : Bool :=
  !suffix.contains '/' && (suffix.isEmpty || (suffix.headD ' ' = '.' && suffix ≠ ['.']))

def withSuffix (p : Path) (suffix : Text) : Except SuffixFault Path :=
  if !isSuffix suffix then .error (.notSuffix suffix)
  else if p.name.isEmpty then .error (.noName p)
  else .ok (p.withName ((splitName p.name).1 ++ Name.ofText suffix))

/-- Component by component, by code points; a shorter path comes before its continuations. -/
def le (p q : Path) : Bool :=
  let rec go : List Name → List Name → Bool
    | [], _ => true
    | _ :: _, [] => false
    | a :: as, b :: bs => if a = b then go as bs else Name.le a b
  go (Name.ofText p.root :: p.parts) (Name.ofText q.root :: q.parts)

end Path

end Trellis
