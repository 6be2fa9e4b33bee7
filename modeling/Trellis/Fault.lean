import Trellis.FileTree.Basic
import Trellis.Pause
import Trellis.Setting
import Trellis.Toml.Basic

/-!
# Faults

What can stop the work on a file: a failure that the program reports itself, a path that cannot be used, bytes that
are no text, a text that has no bytes, digits that are no number, an integer beyond the binary numbers, a path that
takes no suffix, a setting that was left blank, a pause that is refused.
-/

namespace Trellis

/-- What stops the work on a file. -/
inductive Fault where
  | failure (f : Failure)
  | file (f : FileFault)
  | bytes (f : Utf8.Fault)
  | encoding (f : Name.Fault)
  | digits (f : DigitFault)
  | overflow
  | suffix (f : Path.SuffixFault)
  | blank (need : Need)
  | pause (f : PauseFault)
  deriving DecidableEq, Repr

def Fault.message : Fault → Text
  | .failure f => f.toText
  | .file f => f.message
  | .bytes f => f.message
  | .encoding f => f.message
  | .digits f => f.message
  | .overflow => "int too large to convert to float"
  | .suffix f => f.message
  | .blank n => n.message
  | .pause f => f.message

end Trellis
