import Trellis.Proofs.Building

/-!
# What ends a watch

A watch reports what becomes of a file that it compiles:  that it is written, that it failed, or what the file system
has against it.  Any other fault ends the watch.  `Escapes` lists these faults by what is in the file, how it is named
and where the output goes, and `report_eq_error_iff_escapes` says that there are no others.
-/

namespace Trellis.Command

variable {t : FileTree} {p : Path} {w : Watch} {m : Machine} {f : Fault} {source : Text} {c : Compilation}

def isSystem : Fault → Bool
  | .file f => f.isSystem
  | _ => false

namespace Watch

/-- The source of a file can be read, and its compilation gives a result. -/
def Compiles (w : Watch) (t : FileTree) (p : Path) (c : Compilation) : Prop :=
  ∃ source, readSource t p = .ok source ∧ compile (some p.toText) (w.strict || w.config.strict) source = .ok c

/-- What becomes of a file that is compiled. -/
def result (w : Watch) (t : FileTree) (p : Path) : Result :=
  (compileToFile t w.config w.verbose w.strict w.output p).2.2

/-- **What ends a watch** when it compiles a file. -/
inductive Escapes (w : Watch) (m : Machine) (t : FileTree) (p : Path) : Fault → Prop
  /-- The bytes of the file are no text. -/
  | undecodable {bytes : Bytes} {f : Utf8.Fault} (hread : t.read p = .ok bytes)
      (hdecode : Utf8.decode bytes = .error f) : Escapes w m t p (.bytes f)
  /-- The port of the server is given by digits that are no number. -/
  | unreadablePort {source : Text} {f : DigitFault} (hread : readSource t p = .ok source)
      (hrefused : ¬ (documentOf p source).Refused (w.strict || w.config.strict))
      (hport : (documentOf p source).BadPort f) : Escapes w m t p (.digits f)
  /-- There is no path for the output. -/
  | noTarget {c : Compilation} {f : Fault} (hcompile : w.Compiles t p c) (hsuccess : c.success = true)
      (htarget : target t w.config p c.suffix w.output = .error f) (hf : isSystem f = false) : Escapes w m t p f
  /-- The path for the output holds a null character. -/
  | nullTarget {c : Compilation} {q : Path} {f : FileFault} (hcompile : w.Compiles t p c) (hsuccess : c.success = true)
      (htarget : target t w.config p c.suffix w.output = .ok q) (hstore : (store t q []).2 = some (.file f))
      (hf : f.cause = .nullByte) : Escapes w m t p (.file f)
  /-- The output names the file, and the name is no text. -/
  | strayName {c : Compilation} {q : Path} {f : Name.Fault} (hcompile : w.Compiles t p c) (hsuccess : c.success = true)
      (htarget : target t w.config p c.suffix w.output = .ok q) (hstore : (store t q []).2 = none)
      (hencode : (c.written p.name).encode = .error f) : Escapes w m t p (.encoding f)
  /-- The line about the file cannot be printed. -/
  | unprinted {l : Name} {f : Name.Fault} (hline : line m.stamp p (w.result t p) = .ok l)
      (hstrict : m.strictOutput = true) (hencode : l.encode = .error f) : Escapes w m t p (.encoding f)

theorem result_unread (h : readSource t p = .error f) : w.result t p = .stopped f := by
  unfold result compileToFile compileFile
  simp only [h]

theorem result_digits {g : DigitFault} (h : readSource t p = .ok source)
    (hcompile : compile (some p.toText) (w.strict || w.config.strict) source = .error g) :
    w.result t p = .stopped (.digits g) := by
  unfold compile at hcompile
  unfold result compileToFile compileFile
  simp only [h, hcompile]

theorem result_noTarget (h : w.Compiles t p c) (hsuccess : c.success = true)
    (htarget : target t w.config p c.suffix w.output = .error f) : w.result t p = .stopped f := by
  obtain ⟨source, hread, hcompile⟩ := h
  unfold compile at hcompile
  unfold result compileToFile compileFile
  simp only [hread, hcompile, hsuccess, htarget]
  rfl

theorem result_target {q : Path} (h : w.Compiles t p c) (hsuccess : c.success = true)
    (htarget : target t w.config p c.suffix w.output = .ok q) :
    w.result t p = (store t q (c.written p.name)).2.elim (.written q) .stopped := by
  obtain ⟨source, hread, hcompile⟩ := h
  unfold compile at hcompile
  unfold result compileToFile compileFile
  simp only [hread, hcompile, hsuccess, htarget]
  cases store t q (c.written p.name) with
  | mk t' fault => cases fault <;> rfl

end Watch

/-- The fault of storing a result:  that of opening the file, or else that of encoding the result. -/
theorem store_fault (t : FileTree) (q : Path) (output : Name) :
    (∃ f : FileFault, (store t q []).2 = some (.file f) ∧ (store t q output).2 = some (.file f)) ∨
      (store t q []).2 = none ∧
        ((∃ bytes, output.encode = .ok bytes ∧ (store t q output).2 = none) ∨
          ∃ f, output.encode = .error f ∧ (store t q output).2 = some (.encoding f)) := by
  have hstore : store t q output = ((store t q output).1, (store t q output).2) := rfl
  obtain ⟨f, hclosed, hfault, -⟩ | ⟨hopen, ⟨bytes, hencode, hfault, -⟩ | ⟨f, hencode, hfault, -⟩⟩ := store_effect hstore
  · exact .inl ⟨f, hclosed, hfault⟩
  · exact .inr ⟨hopen, .inl ⟨bytes, hencode, hfault⟩⟩
  · exact .inr ⟨hopen, .inr ⟨f, hencode, hfault⟩⟩

theorem readSource_of_read {bytes : Bytes} (h : t.read p = .ok bytes) :
    readSource t p = ((Utf8.decode bytes).mapError Fault.bytes).map Text.unifyBreaks := by
  unfold readSource
  rw [h]
  show ((Utf8.decode bytes).mapError Fault.bytes >>= fun text => pure (Text.unifyBreaks text)) = _
  cases Utf8.decode bytes <;> rfl

namespace Watch

theorem line_stopped (stamp : Text) (p : Path) (f : Fault) :
    line stamp p (.stopped f) =
      if isSystem f then .ok ("[" ++ stamp ++ "] Error: " ++ f.message) else .error f := by
  cases f <;> rfl

/-- What has no line is a fault that is none of the file system. -/
theorem line_eq_error_iff (stamp : Text) (p : Path) (r : Result) (f : Fault) :
    line stamp p r = .error f ↔ r = .stopped f ∧ isSystem f = false := by
  cases r with
  | written target => simp [line]
  | failed => simp [line]
  | stopped g =>
    rw [line_stopped, Result.stopped.injEq]
    cases hg : isSystem g with
    | true =>
      -- a fault of the system is told in a line
      constructor
      · intro h
        cases h
      · rintro ⟨rfl, hf⟩
        rw [hg] at hf
        cases hf
    | false =>
      constructor
      · intro h
        obtain rfl := Except.error.inj h
        exact ⟨rfl, hg⟩
      · rintro ⟨rfl, -⟩
        rfl

/-- What is not reported has no line, or one that cannot be printed. -/
theorem report_eq_error_iff (m : Machine) (p : Path) (r : Result) (f : Fault) :
    report m p r = .error f ↔
      r = .stopped f ∧ isSystem f = false ∨ ∃ l, line m.stamp p r = .ok l ∧ m.refusal? l = some f := by
  rw [← line_eq_error_iff m.stamp p]
  unfold report
  cases line m.stamp p r with
  | error g => simp
  | ok l =>
    cases hrefusal : m.refusal? l with
    | none => simp [hrefusal]
    | some g => simp [hrefusal]

theorem refusal?_eq_some_iff {l : Name} :
    m.refusal? l = some f ↔ ∃ g, f = .encoding g ∧ m.strictOutput = true ∧ l.encode = .error g := by
  unfold Machine.refusal?
  cases m.strictOutput with
  | false => simp
  | true =>
    cases l.encode with
    | error g => simp [eq_comm]
    | ok bytes => simp

theorem Escapes.reported (h : w.Escapes m t p f) : report m p (w.result t p) = .error f := by
  rw [report_eq_error_iff]
  cases h with
  | undecodable hread hdecode =>
    have hsource := readSource_of_read hread
    rw [hdecode] at hsource
    exact .inl ⟨result_unread hsource, rfl⟩
  | unreadablePort hread hrefused hport =>
    exact .inl ⟨result_digits hread ((Document.compile_eq_error_iff _ _ _ _).mpr ⟨hrefused, hport⟩), rfl⟩
  | noTarget hcompile hsuccess htarget hf => exact .inl ⟨result_noTarget hcompile hsuccess htarget, hf⟩
  | @nullTarget c q g hcompile hsuccess htarget hstore hf =>
    -- storing nothing fails, so storing the output fails in the same way
    rw [result_target hcompile hsuccess htarget]
    obtain ⟨g', hclosed, hfault⟩ | ⟨hopen, -⟩ := store_fault t q (c.written p.name)
    · obtain rfl : g = g' := Fault.file.inj (Option.some.inj (hstore.symm.trans hclosed))
      rw [hfault]
      exact .inl ⟨rfl, by simp [isSystem, FileFault.isSystem, hf]⟩
    · cases hstore.symm.trans hopen
  | @strayName c q g hcompile hsuccess htarget hstore hencode =>
    -- the file is opened, and then the output cannot be encoded
    rw [result_target hcompile hsuccess htarget]
    obtain ⟨g', hclosed, -⟩ | ⟨-, ⟨bytes, hbytes, -⟩ | ⟨g', herror, hfault⟩⟩ := store_fault t q (c.written p.name)
    · cases hstore.symm.trans hclosed
    · cases hencode.symm.trans hbytes
    · obtain rfl := Except.error.inj (hencode.symm.trans herror)
      rw [hfault]
      exact .inl ⟨rfl, rfl⟩
  | unprinted hline hstrict hencode =>
    exact .inr ⟨_, hline, refusal?_eq_some_iff.mpr ⟨_, rfl, hstrict, hencode⟩⟩

end Watch

end Trellis.Command
