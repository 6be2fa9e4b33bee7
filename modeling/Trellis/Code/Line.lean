import Trellis.Text.Basic

/-!
# Lines of generated code

A generated line is its nesting level and its text; indentation is added when it is written. A line without
text stays empty at every level.
-/

namespace Trellis

/-- A line of generated code. -/
structure CodeLine where
  level : Nat
  text : Text
  deriving DecidableEq, Repr

namespace CodeLine

/-- The written line, with `size` spaces per level. -/
def render (size : Nat) (l : CodeLine) : Text :=
  if l.text.isEmpty then [] else Text.spaces (l.level * size) ++ l.text

def renderAll (size : Nat) (ls : List CodeLine) : Text := Text.unlines (ls.map (render size))

end CodeLine

/-- What can be done to a listing while it is written. -/
inductive WriterStep where
  | emit (text : Text)
  | indent
  | dedent
  deriving DecidableEq, Repr

/-- A listing being written: the current level and the lines so far. -/
structure Writer where
  level : Nat := 0
  lines : List CodeLine := []
  deriving DecidableEq, Repr

/-- One step; the level never falls below zero. -/
def Writer.step (w : Writer) : WriterStep → Writer
  | .emit t => { w with lines := w.lines ++ [⟨w.level, t⟩] }
  | .indent => { w with level := w.level + 1 }
  | .dedent => { w with level := w.level - 1 }

end Trellis
