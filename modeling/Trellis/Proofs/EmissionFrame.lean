import Trellis.Proofs.AsyncFunctions

/-!
# What emission leaves behind

`Emission.run` emits statements step by step: it writes lines with a writer that is indented for a nested body and
dedented behind it, puts the names that are declared so far aside for the body and back behind it, and notes when an
`await` is inserted.  It writes the lines of `emitAll` and ends with its scope (`run_eq`, `runAll_eq`), so the writer
comes back to its level and the names of a nested body are gone.  Two things remain: the names that the statements
themselves declare (`mem_declared_emitAll`), and the awaits of the whole tree (`awaited_runAll`).
-/

namespace Trellis

namespace Statement

/-- The name that a statement assigns to. -/
def target? : Statement → Option Text
  | .assign target _ _ _ => some target
  | _ => none

/-- The names that some of the statements themselves assign to, leaving nested bodies aside. -/
def targets (ss : List Statement) : List Text := ss.filterMap target?

end Statement

namespace Code

/-! ### The names that are declared -/

theorem mem_declared_assignLine (states : List Text) (level : Nat) (scope : Scope) (target value n : Text) :
    n ∈ (assignLine states level scope target value).2.declared ↔
      n ∈ scope.declared ∨ n = target ∧ n ∉ states := by
  unfold assignLine
  by_cases hstate : states.contains target = true
  · -- a state variable is assigned to and not declared
    rw [if_pos hstate]
    have hmem : target ∈ states := List.contains_iff_mem.mp hstate
    refine ⟨.inl, fun h => h.resolve_right ?_⟩
    rintro ⟨rfl, hn⟩
    exact hn hmem
  · have hnot : target ∉ states := fun h => hstate (List.contains_iff_mem.mpr h)
    rw [if_neg hstate]
    by_cases hdeclared : scope.declared.contains target = true
    · -- a name that is declared already
      have hmem : target ∈ scope.declared := List.contains_iff_mem.mp hdeclared
      rw [if_pos hdeclared]
      refine ⟨.inl, fun h => h.elim id ?_⟩
      rintro ⟨rfl, -⟩
      exact hmem
    · -- a new name
      rw [if_neg hdeclared, List.mem_append, List.mem_singleton]
      refine or_congr_right ⟨?_, And.left⟩
      rintro rfl
      exact ⟨rfl, hnot⟩

/-- A statement declares the name that it assigns to, and no name of its body. -/
theorem mem_declared_emit (states : List Text) (level : Nat) (scope : Scope) (s : Statement) (n : Text) :
    n ∈ (emit states level scope s).2.declared ↔ n ∈ scope.declared ∨ s.target? = some n ∧ n ∉ states := by
  cases s with
  | assign target value body location =>
    rw [emit_assign]
    refine (mem_declared_assignLine states level _ target _ n).trans ?_
    rw [Statement.target?, Option.some.injEq, eq_comm]
    rfl
  | comment text location =>
    rw [emit_comment]
    simp [Statement.target?]
  | raw text body location =>
    rw [emit_raw]
    simp [Statement.target?, Scope.leave, Scope.await]
  | cond condition body orelse location =>
    rw [emit_cond]
    simp [Statement.target?, Scope.leave, Scope.await]
  | respond value location =>
    rw [emit]
    simp [Statement.target?, Scope.await]
  | respondBlock block location =>
    rw [emit]
    simp [Statement.target?]

theorem mem_declared_emitAll (states : List Text) (level : Nat) (scope : Scope) (ss : List Statement) (n : Text) :
    n ∈ (emitAll states level scope ss).2.declared ↔
      n ∈ scope.declared ∨ n ∈ Statement.targets ss ∧ n ∉ states := by
  induction ss generalizing scope with
  | nil =>
    rw [emitAll_nil]
    simp [Statement.targets]
  | cons s ss ih =>
    rw [emitAll_cons]
    have hcons : n ∈ Statement.targets (s :: ss) ↔ s.target? = some n ∨ n ∈ Statement.targets ss := by
      simp only [Statement.targets, List.mem_filterMap, List.exists_mem_cons_iff]
    rw [hcons, or_and_right, ← or_assoc, ← mem_declared_emit states level]
    exact ih _

/-! ### Inserted awaits -/

/-- An `await` is inserted into the expression. -/
def changes (expression : Text) : Bool := (insertAwaits expression).2

theorem changes_iff (expression : Text) : changes expression = true ↔ (insertAwaits expression).1 ≠ expression := by
  have hself : (insertAwaits expression).1 = expression ↔ ¬ LacksAwait expression := withAwaitsFrom_eq_self_iff
  rw [ne_eq, hself, not_not]
  exact insertAwaitsFrom_changed

/-! ### Emission step by step -/

/-- What emission works on: the writer, the names of the state, and what is known of the function. -/
structure Emission where
  writer : Writer
  states : List Text
  scope : Scope

namespace Emission

def put (e : Emission) (text : Text) : Emission := { e with writer := e.writer.step (.emit text) }

/-- Notes whether an `await` is inserted into an expression. -/
def note (e : Emission) (expression : Text) : Emission :=
  { e with scope := e.scope.await (insertAwaits expression).2 }

def enter (e : Emission) : Emission := { e with writer := e.writer.step .indent }

/-- Ends a nested body that was started at `outer`: its names are forgotten. -/
def leave (outer e : Emission) : Emission :=
  { e with writer := e.writer.step .dedent, scope := { e.scope with declared := outer.scope.declared } }

/-- Writes an assignment, which declares a name that is neither state nor declared. -/
def assign (e : Emission) (target value : Text) : Emission :=
  if e.states.contains target then e.put (target ++ ".value = " ++ value)
  else if e.scope.declared.contains target then e.put (target ++ " = " ++ value)
  else { e with scope := { e.scope with declared := e.scope.declared ++ [target] } }.put ("let " ++ target ++ " = " ++ value)

def code (e : Emission) (expression : Text) : Text := accessState e.states (insertAwaits expression).1

/-- Behind a nested body, given what its emission has come to; an empty one is not even started. -/
def behind (e : Emission) (body : List Statement) (inner : Emission) : Emission :=
  if body.isEmpty then e else e.leave inner

mutual

def run (e : Emission) : Statement → Emission
  | .comment text _ => e.put (Text.trimEnd ("// " ++ text))
  | .cond condition body orelse _ =>
    let e := (e.note condition).put ("if (" ++ e.code condition ++ ") \x7b")
    let e := e.behind body (runAll e.enter body)
    let other := e.put "\x7d else \x7b"
    let e := if orelse.isEmpty then e else other.behind orelse (runAll other.enter orelse)
    e.put "\x7d"
  | .assign target value body _ =>
    let e := (e.note value).assign target (e.code value)
    e.behind body (runAll e.enter body)
  | .raw text body _ =>
    let e := (e.note text).put (e.code text)
    e.behind body (runAll e.enter body)
  | .respond value _ => (e.note value).put (Text.trimEnd ("return " ++ e.code value))
  | .respondBlock _ _ => e.put "return"

def runAll (e : Emission) : List Statement → Emission
  | [] => e
  | s :: ss => runAll (run e s) ss

end

/-! ### Emission writes the lines of the statements -/

/-- Behind some lines, in the scope that follows them. -/
def after (e : Emission) (r : List CodeLine × Scope) : Emission :=
  { e with writer := ⟨e.writer.level, e.writer.lines ++ r.1⟩, scope := r.2 }

variable (e : Emission)

theorem after_after (r r' : List CodeLine × Scope) : (e.after r).after r' = e.after (r.1 ++ r'.1, r'.2) := by
  unfold after
  rw [List.append_assoc]

theorem after_nil : e.after ([], e.scope) = e := by
  unfold after
  rw [List.append_nil]

theorem put_eq (text : Text) : e.put text = e.after ([⟨e.writer.level, text⟩], e.scope) := rfl

theorem note_put_eq (expression text : Text) : (e.note expression).put text =
    e.after ([⟨e.writer.level, text⟩], e.scope.await (transform e.states expression).2) := rfl

theorem assign_eq (target value : Text) : e.assign target value =
    e.after ([(assignLine e.states e.writer.level e.scope target value).1],
      (assignLine e.states e.writer.level e.scope target value).2) := by
  unfold assign assignLine
  split
  · rfl
  · split <;> rfl

/-- A nested body is written one level deeper, and only its awaits are kept. -/
theorem behind_eq (body : List Statement)
    (ih : runAll e.enter body = e.enter.after (emitAll e.states (e.writer.level + 1) e.scope body)) :
    e.behind body (runAll e.enter body) =
      e.after ((emitAll e.states (e.writer.level + 1) e.scope body).1,
        e.scope.leave (emitAll e.states (e.writer.level + 1) e.scope body).2) := by
  cases body with
  | nil =>
    rw [emitAll_nil]
    exact (after_nil e).symm
  | cons s ss =>
    rw [ih]
    rfl

mutual

theorem run_eq (e : Emission) : ∀ s, e.run s = e.after (emit e.states e.writer.level e.scope s)
  | .comment text _ => by
    rw [run, emit_comment]
    rfl
  | .raw text body _ => by
    rw [run, emit_raw]
    simp only
    rw [behind_eq _ body (runAll_eq _ body), note_put_eq, after_after]
    rfl
  | .assign target value body _ => by
    rw [run, emit_assign]
    simp only
    rw [behind_eq _ body (runAll_eq _ body), assign_eq, after_after]
    rfl
  | .cond condition body orelse _ => by
    rw [run, emit_cond]
    simp only
    rw [behind_eq _ body (runAll_eq _ body), note_put_eq, after_after]
    cases orelse with
    | nil =>
      -- without an else branch the brace is closed at once
      rw [emitAll_nil, List.isEmpty_nil, if_pos rfl, put_eq, after_after]
      simp only [if_true, List.append_nil]
      rfl
    | cons s ss =>
      rw [List.isEmpty_cons, if_neg Bool.false_ne_true, behind_eq _ (s :: ss) (runAll_eq _ (s :: ss)), put_eq, put_eq,
        after_after, after_after, after_after]
      simp only [Bool.false_eq_true, if_false, List.append_assoc]
      rfl
  | .respond value _ => by
    rw [run, emit]
    rfl
  | .respondBlock _ _ => by
    rw [run, emit]
    rfl

theorem runAll_eq (e : Emission) : ∀ ss, e.runAll ss = e.after (emitAll e.states e.writer.level e.scope ss)
  | [] => by
    rw [runAll, emitAll_nil, after_nil]
  | s :: ss => by
    rw [runAll, emitAll_cons, run_eq e s, runAll_eq _ ss, after_after]
    rfl

end

/-! ### The awaits of the tree -/

/-- The awaits of a nested body are kept. -/
theorem awaited_behind (body : List Statement)
    (ih : (runAll e.enter body).scope.awaited = (e.scope.awaited || (Statement.codesAll body).any (changes ·.2))) :
    (e.behind body (runAll e.enter body)).scope.awaited =
      (e.scope.awaited || (Statement.codesAll body).any (changes ·.2)) := by
  cases body with
  | nil => exact (Bool.or_false _).symm
  | cons s ss => exact ih

/-- The awaits of an `else` body are kept. -/
theorem awaited_otherwise (orelse : List Statement)
    (ih : (runAll (e.put "\x7d else \x7b").enter orelse).scope.awaited =
      (e.scope.awaited || (Statement.codesAll orelse).any (changes ·.2))) :
    (if orelse.isEmpty then e
      else (e.put "\x7d else \x7b").behind orelse (runAll (e.put "\x7d else \x7b").enter orelse)).scope.awaited =
        (e.scope.awaited || (Statement.codesAll orelse).any (changes ·.2)) := by
  cases orelse with
  | nil => exact (Bool.or_false _).symm
  | cons s ss => exact awaited_behind (e.put "\x7d else \x7b") (s :: ss) ih

theorem awaited_assign (target value : Text) : (e.assign target value).scope.awaited = e.scope.awaited := by
  rw [assign_eq]
  exact awaited_assignLine e.states e.writer.level e.scope target value

mutual

theorem awaited_run (e : Emission) :
    ∀ s : Statement, (e.run s).scope.awaited = (e.scope.awaited || s.codes.any (changes ·.2))
  | .comment text _ => by
    rw [run, Statement.codes]
    exact (Bool.or_false _).symm
  | .raw text body _ => by
    rw [run, Statement.codes, awaited_behind _ body (awaited_runAll _ body), List.any_cons, ← Bool.or_assoc]
    rfl
  | .assign target value body _ => by
    rw [run, Statement.codes, awaited_behind _ body (awaited_runAll _ body), awaited_assign, List.any_cons,
      ← Bool.or_assoc]
    rfl
  | .cond condition body orelse _ => by
    rw [run, Statement.codes, List.any_cons, List.any_append, ← Bool.or_assoc, ← Bool.or_assoc]
    have hbody := awaited_behind ((e.note condition).put ("if (" ++ e.code condition ++ ") \x7b")) body
      (awaited_runAll _ body)
    refine (awaited_otherwise _ orelse (awaited_runAll _ orelse)).trans ?_
    rw [hbody]
    rfl
  | .respond value _ => by
    rw [run, Statement.codes, List.any_cons, List.any_nil, Bool.or_false]
    rfl
  | .respondBlock _ _ => by
    rw [run, Statement.codes]
    exact (Bool.or_false _).symm

theorem awaited_runAll (e : Emission) :
    ∀ ss : List Statement, (e.runAll ss).scope.awaited = (e.scope.awaited || (Statement.codesAll ss).any (changes ·.2))
  | [] => by
    rw [runAll, Statement.codesAll]
    exact (Bool.or_false _).symm
  | s :: ss => by
    rw [runAll, Statement.codesAll, List.any_append, ← Bool.or_assoc, ← awaited_run e s]
    exact awaited_runAll _ ss

end

/-- **Emission restores its context.**  Behind the statements, the writer is at the level where it was, and the names of the
state are the same.  Declared are the names that were, and those that the statements themselves assign to and that are
no state; nothing that a nested body declares is.  An `await` is noted if it was before, or if the insertion of awaits
changes some expression anywhere in the tree.  The lines and the scope are those of `emitAll`. -/
theorem runAll_frame (e : Emission) (ss : List Statement) :
    (e.runAll ss).writer.level = e.writer.level ∧ (e.runAll ss).states = e.states ∧
      (∀ n, n ∈ (e.runAll ss).scope.declared ↔
        n ∈ e.scope.declared ∨ n ∈ Statement.targets ss ∧ n ∉ e.states) ∧
      ((e.runAll ss).scope.awaited = true ↔
        e.scope.awaited = true ∨ ∃ p ∈ Statement.codesAll ss, (insertAwaits p.2).1 ≠ p.2) ∧
      (e.runAll ss).writer.lines = e.writer.lines ++ (emitAll e.states e.writer.level e.scope ss).1 ∧
      (e.runAll ss).scope = (emitAll e.states e.writer.level e.scope ss).2 := by
  have hawaited := awaited_runAll e ss
  have heq := runAll_eq e ss
  rw [heq] at hawaited ⊢
  refine ⟨rfl, rfl, mem_declared_emitAll e.states e.writer.level e.scope ss, ?_, rfl, rfl⟩
  rw [hawaited, Bool.or_eq_true, List.any_eq_true]
  simp only [changes_iff]

end Emission

end Code

end Trellis
