import Trellis.Fault

/-!
# The machine

What a command meets outside of the files. Its reports bear the time of day. Its standard output may be strict: it then
refuses a text that has no bytes, as one that holds an undecodable name. Its clock times the pauses of a watch and may
refuse them.
-/

namespace Trellis.Command

/-- The clock of a machine. One that is moved on by hand refuses no pause; one that runs by itself shows some
nanoseconds at the start of each pause. -/
inductive Clock where
  | byHand
  | running (reading : (pause : Nat) → Nat)

/-- The machine a command runs on. -/
structure Machine where
  stamp : Text := []
  strictOutput : Bool := false
  clock : Clock := .byHand

namespace Machine

/-- Why a text is not printed on the standard output. -/
def refusal? (m : Machine) (text : Name) : Option Fault :=
  match m.strictOutput, text.encode with
  | true, .error f => some (.encoding f)
  | _, _ => none

/-- Why the pause of this number is not taken. -/
def pauseFault? (m : Machine) (pause : Nat) (seconds : Binary64) : Option Fault :=
  match m.clock with
  | .byHand => none
  | .running reading => (seconds.pauseFault? (reading pause)).map Fault.pause

end Machine

end Trellis.Command
