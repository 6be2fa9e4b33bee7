import Trellis.Command.Run

/-!
# The start of a watch

A watch starts with the settings of the working directory.  The interval among them bears no minus sign
(`unsigned_interval`), though it may be no number, infinite or longer than a clock can count.  `NoPause` lists the pauses
that a running clock refuses.
-/

namespace Trellis

namespace Binary64

/-- The number bears no minus sign. -/
def Unsigned : Binary64 → Prop
  | .finite negative _ _ => negative = false
  | _ => True

/-- **The pauses that a running clock refuses** when it shows `now`. -/
inductive NoPause (now : Nat) : Binary64 → PauseFault → Prop
  | notNumber : NoPause now .nan .notNumber
  | infinite (negative : Bool) : NoPause now (.infinite negative) .outOfRange
  /-- The nanoseconds do not fit into 63 bits. -/
  | tooLong {negative : Bool} {m : Nat} {e : Int} (h : ∀ count, nanoseconds? m e = some count → nanosecondLimit ≤ count) :
      NoPause now (.finite negative m e) .outOfRange
  /-- They do, but the time at which the pause would end does not. -/
  | pastEnd {negative : Bool} {m : Nat} {e : Int} {count : Nat} (h : nanoseconds? m e = some count)
      (hfits : count < nanosecondLimit) (hend : nanosecondLimit ≤ now + count) :
      NoPause now (.finite negative m e) .pastEnd

variable {x : Binary64} {now : Nat}

theorem NoPause.pauseFault? {f : PauseFault} (hx : x.Unsigned) (h : NoPause now x f) : x.pauseFault? now = some f := by
  unfold Binary64.pauseFault?
  cases h with
  | notNumber => rfl
  | infinite negative => rfl
  | @tooLong negative m e h =>
    cases hcount : nanoseconds? m e with
    | none => simp only [hcount]
    | some count => simp only [hcount, if_pos (h count hcount)]
  | @pastEnd negative m e count h hfits hend =>
    obtain rfl : negative = false := hx
    simp only [h, if_neg (Nat.not_le.mpr hfits), Bool.false_and, Bool.false_eq_true, if_false]
    exact if_pos hend

end Binary64

namespace Config

variable {c : Config}

end Config

namespace Command

variable {t : FileTree} {i : Invocation} {w : Watch} {m : Machine} {f : Fault}

/-- A watch has the settings of the working directory, and a watch of a directory has no output with a suffix. -/
theorem startWatch_eq_ok (h : startWatch t i = .ok w) :
    ∃ config, Config.load t t.homePath = .ok config ∧
      w = ⟨i.input, i.choices.output, config, i.choices.strict, i.verbose⟩ ∧
        (t.isDirectory i.input = true → w.output = none ∨ ∃ o, w.output = some (.given o) ∧ o.suffix = []) := by
  unfold startWatch at h
  cases hinput : withoutInput? t "Path" i.input with
  | some o =>
    rw [hinput] at h
    cases h
  | none =>
    rw [hinput] at h
    cases hconfig : Config.load t t.homePath with
    | error f =>
      rw [hconfig] at h
      cases f <;> cases h
    | ok config =>
      simp only [hconfig] at h
      refine ⟨config, rfl, ?_⟩
      split at h
      · next hfile =>
        obtain rfl := Except.ok.inj h
        exact ⟨rfl, fun hdir => by simp [hdir] at hfile⟩
      · -- a directory: the output is looked at
        cases houtput : i.choices.output with
        | none =>
          rw [houtput] at h
          obtain rfl := Except.ok.inj h
          exact ⟨rfl, fun _ => .inl rfl⟩
        | some setting =>
          rw [houtput] at h
          cases setting with
          | blank => cases h
          | given o =>
            simp only [askedPath, Setting.valueFor, Except.map] at h
            split at h
            · next hsuffix =>
              obtain rfl := Except.ok.inj h
              exact ⟨rfl, fun _ => .inr ⟨o, rfl, List.isEmpty_iff.mp hsuffix⟩⟩
            · cases h

/-- The clock refuses the pause of this number. -/
def Watch.Refused (w : Watch) (m : Machine) (pause : Nat) (f : Fault) : Prop :=
  ∃ reading cause, m.clock = .running reading ∧ f = .pause cause ∧
    Binary64.NoPause (reading pause) w.config.interval cause

end Command

end Trellis
