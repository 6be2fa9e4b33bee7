import Trellis.Decimal.Binary64
import Trellis.Failure

/-!
# Settings values

The values of a settings file and its tables. A table keeps its entries in the order they were made. A dotted
key walks through tables, and through the last table of an array where the array was opened table by table.
-/

namespace Trellis.Toml

/-- A value. Dates and times are kept as they are written. -/
inductive Value where
  | text (t : Text)
  | flag (b : Bool)
  | integer (n : Int)
  | float (x : Binary64)
  | moment (t : Text)
  | array (items : List Value)
  | table (entries : List (Text × Value))
  deriving Repr, Inhabited

/-- The entries of a table. -/
abbrev Table := List (Text × Value)

/-- A dotted key. -/
abbrev Key := List Text

/-- Why a file cannot be read: it breaks the grammar or defines something twice, or an integer is too long. -/
inductive Fault where
  | malformed
  | digits (fault : DigitFault)
  deriving DecidableEq, Repr

/-- The value is an array or a table. -/
def Value.isContainer : Value → Bool
  | .array _ | .table _ => true
  | _ => false

namespace Table

def get? (t : Table) (k : Text) : Option Value := t.lookup k

/-- Gives an existing entry another value. -/
def replace (t : Table) (k : Text) (v : Value) : Table := t.map fun e => if e.1 = k then (k, v) else e

/-- Adds an entry; there is none of that name yet. -/
def insert? (k : Text) (v : Value) (t : Table) : Option Table :=
  if (t.get? k).isSome then none else some (t ++ [(k, v)])

/-- Changes the table under a key, making the tables on the way. An array on the way stands for its last table
when `arrays` is set. None when something else is in the way. -/
def update? (arrays : Bool) (f : Table → Option Table) : Key → Table → Option Table
  | [], t => f t
  | k :: ks, t =>
    match t.get? k with
    | none => (update? arrays f ks []).map fun inner => t ++ [(k, .table inner)]
    | some (.table inner) => (update? arrays f ks inner).map fun inner => t.replace k (.table inner)
    | some (.array items) =>
      match arrays, items.getLast? with
      | true, some (.table inner) =>
        (update? arrays f ks inner).map fun inner => t.replace k (.array (items.dropLast ++ [.table inner]))
      | _, _ => none
    | some _ => none

/-- Adds an empty table to the array of that name. -/
def appendTable? (k : Text) (t : Table) : Option Table :=
  match t.get? k with
  | none => some (t ++ [(k, .array [.table []])])
  | some (.array items) => some (t.replace k (.array (items ++ [.table []])))
  | some _ => none

end Table

end Trellis.Toml
