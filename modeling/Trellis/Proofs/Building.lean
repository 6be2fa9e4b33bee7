import Mathlib.Tactic.ByContra
import Trellis.Command.Run
import Trellis.Proofs.FileFrame
import Trellis.Proofs.Names

/-!
# Building, building strictly and checking

A check finds errors in a source exactly when a strict build refuses it, and a strict build that succeeds is the lenient
build (`compileFile_lenient`).  A build into a file touches one file, the one at the output path, and none before the
output path can be opened (`Opens`).  From there on, three things can happen (`Built`):  the output is written, it is
written but the line that tells so cannot be printed, or the file is left empty because the output names a source whose
name is no text.
-/

namespace Trellis.Command

variable {t t' : FileTree} {input : Path} {source : Text} {verbose strict : Bool} {m : Machine}

/-- The document of a source file. -/
abbrev documentOf (input : Path) (source : Text) : Document := Document.read (some input.toText) source

/-! ### Reading the source -/

theorem look_of_readSource (h : readSource t input = .ok source) : ∃ e, t.look input = .ok (some e) := by
  unfold readSource FileTree.read at h
  unfold FileTree.look
  cases hfind : t.find input with
  | ok e => exact ⟨e, rfl⟩
  | error cause =>
    rw [hfind] at h
    cases h

theorem withoutInput?_of_readSource (what : Text) (h : readSource t input = .ok source) :
    withoutInput? t what input = none := by
  obtain ⟨e, he⟩ := look_of_readSource h
  unfold withoutInput?
  rw [he]

/-! ### The last line -/

theorem conclude_of_prints {text : Name} (h : m.Prints text) (t : FileTree) (printed : Printed) :
    conclude m t printed text = { tree := t, printed := printed ++ { out := text }, ending := .exit 0 } := by
  unfold conclude
  rw [Machine.refusal?_of_prints h]

theorem conclude_of_not_prints {text : Name} (h : ¬ m.Prints text) (t : FileTree) (printed : Printed) :
    ∃ f, conclude m t printed text = { tree := t, printed := printed, ending := .fault (.encoding f) } := by
  obtain ⟨f, hf⟩ := Machine.refusal?_of_not_prints h
  exact ⟨f, by rw [conclude, hf]⟩

theorem conclude_exit_zero_iff (m : Machine) (t : FileTree) (printed : Printed) (text : Name) :
    (conclude m t printed text).ending = .exit 0 ↔ m.Prints text := by
  by_cases h : m.Prints text
  · simp [conclude_of_prints h, h]
  · obtain ⟨f, hf⟩ := conclude_of_not_prints h t printed
    simp [hf, h]

theorem conclude_ne_exit_one (m : Machine) (t : FileTree) (printed : Printed) (text : Name) :
    (conclude m t printed text).ending ≠ .exit 1 := by
  unfold conclude
  cases m.refusal? text <;> simp

/-! ### Checking -/

/-- How a check of a source that can be read ends: with 1 when the source has errors, and else with 0, unless the path
cannot be printed. -/
theorem check_ending {i : Invocation} (h : readSource t i.input = .ok source) (m : Machine) :
    ((check t i m).ending = .exit 1 ↔ Diagnostic.errors (documentOf i.input source).diagnostics ≠ []) ∧
      ((check t i m).ending = .exit 0 ↔
        Diagnostic.errors (documentOf i.input source).diagnostics = [] ∧ m.Prints i.input.written) := by
  have hnone : Diagnostic.errors [] = [] := rfl
  unfold check
  rw [withoutInput?_of_readSource "File" h]
  simp only [h]
  split
  · next hempty =>
    rw [List.isEmpty_iff.mp hempty, hnone, conclude_exit_zero_iff]
    simp only [Machine.prints_append, m.prints_ofText, conclude_ne_exit_one, ne_eq, not_true_eq_false, true_and,
      and_true]
  · split
    · next hpos => simp [List.length_pos_iff.mp hpos]
    · next hpos =>
      have hzero : Diagnostic.errors (documentOf i.input source).diagnostics = [] :=
        List.length_eq_zero_iff.mp (Nat.eq_zero_of_not_pos hpos)
      rw [hzero, conclude_exit_zero_iff]
      simp only [Machine.prints_append, m.prints_ofText, conclude_ne_exit_one, ne_eq, not_true_eq_false, true_and,
        and_true]

/-! ### Compiling -/

/-- Only a strict compilation of a source with errors fails in the parser. -/
theorem refused_of_kind {path : Option Text} {d : Document} {c : Compilation} {f : Failure}
    (h : d.compile path strict = .ok c) (hf : c.error = some f) (hk : f.kind = .parser) : d.Refused strict := by
  by_contra hn
  obtain ⟨-, ⟨output, -, hnone⟩ | ⟨g, hgen, hg⟩⟩ := Document.result_of_not_refused hn h
  · rw [hf] at hnone
    cases hnone
  · obtain rfl : f = g := Option.some.inj (hf.symm.trans hg)
    rw [Document.generate_failure_kind hgen] at hk
    cases hk

/-- A source that is not refused is compiled alike, strictly or not. -/
theorem compile_lenient_eq (path : Option Text) {d : Document} (h : ¬ d.Refused strict) :
    d.compile path strict = d.compile path false := by
  rw [Document.compile_of_not_refused path h, Document.compile_of_not_refused path d.not_refused_lenient]

theorem compileFile_of_readSource (verbose strict : Bool) (h : readSource t input = .ok source) :
    (compileFile t verbose strict input).2 =
      (compile (some input.toText) strict source).mapError Fault.digits := by
  unfold compileFile compile
  simp only [h]
  cases (documentOf input source).compile (some input.toText) strict <;> rfl

/-- The failure of a compilation is printed last. -/
theorem compileFile_printed (verbose : Bool) (h : readSource t input = .ok source) {c : Compilation} {f : Failure}
    (hc : compile (some input.toText) strict source = .ok c) (hf : c.error = some f) :
    ∃ shown, (compileFile t verbose strict input).1 = shown ++ showFailure f := by
  unfold compile at hc
  unfold compileFile
  simp only [h, hc, hf]
  exact ⟨_, rfl⟩

theorem compileFile_lenient (verbose : Bool) (h : readSource t input = .ok source)
    (hn : ¬ (documentOf input source).Refused strict) :
    compileFile t verbose strict input = compileFile t verbose false input := by
  unfold compileFile
  simp only [h, compile_lenient_eq (some input.toText) hn]

/-! ### Storing the result -/

/-- The file that the path leads to holds the bytes, and every other file is as it was. -/
def Leaves (t t' : FileTree) (target : Path) (bytes : Bytes) : Prop :=
  ∃ place, t'.resolve true target = .ok place ∧ t'.file? place = some bytes ∧ ∀ q, q ≠ place → t'.file? q = t.file? q

theorem store_nil (t : FileTree) (target : Path) :
    store t target [] = match t.tick.makeDirectories target.parent with
      | (made, some f) => (made, some (.file f))
      | (made, none) => match made.write target [] with
        | .ok written => (written, none)
        | .error f => (made, some (.file f)) := rfl

/-- **What storing a result does.**  Where the file cannot be opened, every file is as it was.  Else the file holds the
bytes of the result, or nothing, if the result has no bytes. -/
theorem store_effect {target : Path} {output : Name} {fault : Option Fault}
    (h : store t target output = (t', fault)) :
    (∃ f : FileFault, (store t target []).2 = some (.file f) ∧ fault = some (.file f) ∧ ∀ q, t'.file? q = t.file? q) ∨
      (store t target []).2 = none ∧
        ((∃ bytes, output.encode = .ok bytes ∧ fault = none ∧ Leaves t t' target bytes) ∨
          ∃ f, output.encode = .error f ∧ fault = some (.encoding f) ∧ Leaves t t' target []) := by
  have hmade := FileTree.makeDirectories_file? t.tick target.parent
  rw [store_nil]
  unfold store at h
  cases hdirs : t.tick.makeDirectories target.parent with
  | mk made stopped =>
    rw [hdirs] at h hmade
    cases stopped with
    | some f =>
      obtain ⟨rfl, rfl⟩ := Prod.mk.inj h
      exact .inl ⟨_, rfl, rfl, hmade⟩
    | none =>
      simp only at h ⊢
      -- whatever is written, opening the file succeeds or fails alike
      have hwrites : ∀ {bytes : Bytes} {written : FileTree}, made.write target bytes = .ok written →
          Leaves t written target bytes := by
        intro bytes written hwrite
        obtain ⟨place, hplace, hfile, hothers⟩ := FileTree.write_effect hwrite
        exact ⟨place, hplace, hfile, fun q hq => (hothers q hq).trans (hmade q)⟩
      cases hempty : made.write target [] with
      | error f =>
        have herror : ∀ bytes, made.write target bytes = .error f :=
          fun bytes => FileTree.write_eq_error_iff.mp hempty
        simp only [herror] at h
        have hresult : (made, some (Fault.file f)) = (t', fault) := by
          cases hencode : output.encode <;> simpa only [hencode] using h
        obtain ⟨rfl, rfl⟩ := Prod.mk.inj hresult
        exact .inl ⟨f, rfl, rfl, hmade⟩
      | ok emptied =>
        right
        refine ⟨rfl, ?_⟩
        cases hencode : output.encode with
        | error g =>
          rw [hencode] at h
          simp only [hempty] at h
          obtain ⟨rfl, rfl⟩ := Prod.mk.inj h
          exact .inr ⟨g, rfl, rfl, hwrites hempty⟩
        | ok bytes =>
          rw [hencode] at h
          simp only at h
          cases hwrite : made.write target bytes with
          | error f =>
            rw [FileTree.write_eq_error_iff.mp hwrite] at hempty
            cases hempty
          | ok written =>
            rw [hwrite] at h
            obtain ⟨rfl, rfl⟩ := Prod.mk.inj h
            exact .inl ⟨bytes, rfl, rfl, hwrites hwrite⟩

/-! ### Compiling to a file -/

/-- From the tree `t`, the build gets as far as opening the output path:  settings, source and output are there, and the
path takes a file. -/
def Opens (t : FileTree) (i : Invocation) (c : Compilation) (goal : Path) : Prop :=
  ∃ config source output,
    Config.load t t.homePath = .ok config ∧ readSource t i.input = .ok source ∧
      compile (some i.input.toText) (i.choices.strict || config.strict) source = .ok c ∧ c.success = true ∧
      askedPath .directory i.choices.output = .ok output ∧
      outputPath t i.input c.suffix output config.outDir = .ok goal ∧ (store t goal []).2 = none

theorem target_eq_ok_iff {config : Config} {suffix : Text} {asked : Option (Setting Path)} {p : Path} :
    target t config input suffix asked = .ok p ↔
      ∃ output, askedPath .directory asked = .ok output ∧ outputPath t input suffix output config.outDir = .ok p := by
  unfold target
  cases askedPath .directory asked with
  | error need => exact ⟨nofun, fun ⟨_, h, _⟩ => nomatch h⟩
  | ok output =>
    constructor
    · intro h
      exact ⟨output, rfl, h⟩
    · rintro ⟨output', heq, h⟩
      obtain rfl := Except.ok.inj heq
      exact h

theorem compileFile_eq_ok_iff {c : Compilation} :
    (compileFile t verbose strict input).2 = .ok c ↔
      ∃ source, readSource t input = .ok source ∧ compile (some input.toText) strict source = .ok c := by
  cases hread : readSource t input with
  | error f =>
    unfold compileFile
    rw [hread]
    exact ⟨nofun, fun ⟨_, h, _⟩ => nomatch h⟩
  | ok source =>
    rw [compileFile_of_readSource verbose strict hread]
    cases hc : compile (some input.toText) strict source with
    | error fault =>
      refine ⟨nofun, ?_⟩
      rintro ⟨source', heq, h⟩
      obtain rfl := Except.ok.inj heq
      cases hc.symm.trans h
    | ok c' =>
      constructor
      · intro h
        obtain rfl : c' = c := Except.ok.inj h
        exact ⟨source, rfl, hc⟩
      · rintro ⟨source', heq, h⟩
        obtain rfl := Except.ok.inj heq
        obtain rfl := Except.ok.inj (hc.symm.trans h)
        rfl

/-- The same by the functions that the build calls. -/
theorem opens_iff {config : Config} {i : Invocation} {c : Compilation} {goal : Path}
    (hconfig : Config.load t t.homePath = .ok config) :
    Opens t i c goal ↔
      (compileFile t i.verbose (i.choices.strict || config.strict) i.input).2 = .ok c ∧ c.success = true ∧
        target t config i.input c.suffix i.choices.output = .ok goal ∧ (store t goal []).2 = none := by
  rw [compileFile_eq_ok_iff, target_eq_ok_iff]
  constructor
  · rintro ⟨config', source, output, hload, hread, hcompile, hsuccess, hasked, hpath, hopen⟩
    obtain rfl : config = config' := Except.ok.inj (hconfig.symm.trans hload)
    exact ⟨⟨source, hread, hcompile⟩, hsuccess, ⟨output, hasked, hpath⟩, hopen⟩
  · rintro ⟨⟨source, hread, hcompile⟩, hsuccess, ⟨output, hasked, hpath⟩, hopen⟩
    exact ⟨config, source, output, hconfig, hread, hcompile, hsuccess, hasked, hpath, hopen⟩

theorem tree_result_inj {printed printed' : Printed} {result result' : Result}
    (h : (t, printed, result) = (t', printed', result')) : t = t' ∧ result = result' :=
  ⟨(Prod.mk.inj h).1, (Prod.mk.inj (Prod.mk.inj h).2).2⟩

/-- What compiling to a file can do.  It writes the output, or it empties the file, or it leaves every file as it is
because it does not get as far as that. -/
inductive Compiled (t : FileTree) (i : Invocation) (t' : FileTree) (result : Result) : Prop
  | written {c : Compilation} {goal : Path} (hopens : Opens t i c goal) (hname : i.input.name.isText = true)
      (hfile : Leaves t t' goal (Utf8.encode c.output)) (hresult : result = .written goal)
  | emptied {c : Compilation} {goal : Path} {f : Name.Fault} (hopens : Opens t i c goal)
      (hname : i.input.name.isText = false) (hencode : (c.written i.input.name).encode = .error f)
      (hfile : Leaves t t' goal []) (hresult : result = .stopped (.encoding f))
  | untouched (hopens : ∀ c goal, ¬ Opens t i c goal) (hfiles : ∀ q, t'.file? q = t.file? q)
      (hresult : ∀ goal, result ≠ .written goal)

theorem compiled_of_store {i : Invocation} {c : Compilation} {goal : Path} {fault : Option Fault}
    (hopens : (store t goal []).2 = none → Opens t i c goal)
    (hstore : store t goal (c.written i.input.name) = (t', fault))
    (hblocked : (store t goal []).2 ≠ none → ∀ c goal, ¬ Opens t i c goal) :
    Compiled t i t' (fault.elim (.written goal) .stopped) := by
  obtain ⟨f, hclosed, rfl, hfiles⟩ | ⟨hopen, ⟨bytes, hencode, rfl, hfile⟩ | ⟨f, hencode, rfl, hfile⟩⟩ :=
    store_effect hstore
  · exact .untouched (hblocked (by rw [hclosed]; simp)) hfiles (by simp)
  · -- an output that has bytes names a text, and its bytes are those of the output
    have hname : i.input.name.isText = true := by
      by_contra hn
      have hwritten := c.isText_written i.input.name
      rw [Bool.eq_false_iff.mpr hn] at hwritten
      obtain ⟨f, hf⟩ := Name.encode_of_not_isText hwritten
      cases hencode.symm.trans hf
    rw [c.written_of_isText hname, Name.encode_ofText] at hencode
    obtain rfl := Except.ok.inj hencode
    exact .written (hopens hopen) hname hfile rfl
  · have hname : i.input.name.isText = false :=
      (c.isText_written i.input.name).symm.trans (Name.encode_eq_error_iff.mp ⟨f, hencode⟩)
    exact .emptied (hopens hopen) hname hencode hfile rfl

theorem compileToFile_compiled {config : Config} {i : Invocation} {printed : Printed} {result : Result}
    (hconfig : Config.load t t.homePath = .ok config)
    (h : compileToFile t config i.verbose i.choices.strict i.choices.output i.input = (t', printed, result)) :
    Compiled t i t' result := by
  have hiff : ∀ c goal, Opens t i c goal ↔ _ := fun c goal => opens_iff hconfig
  unfold compileToFile at h
  cases hc : compileFile t i.verbose (i.choices.strict || config.strict) i.input with
  | mk shown compiled =>
    rw [hc] at h hiff
    cases compiled with
    | error f =>
      -- the source cannot be read, or its port is no number
      obtain ⟨rfl, rfl⟩ := tree_result_inj h
      exact .untouched (fun c goal => by simp [hiff]) (fun q => rfl) (by simp)
    | ok c =>
      simp only at h
      cases hsuccess : c.success with
      | false =>
        -- the compilation has failed
        rw [hsuccess] at h
        obtain ⟨rfl, rfl⟩ := tree_result_inj h
        refine .untouched (fun c' goal => ?_) (fun q => rfl) (by simp)
        rw [hiff]
        rintro ⟨heq, hsuccess', -⟩
        obtain rfl := Except.ok.inj heq
        rw [hsuccess] at hsuccess'
        cases hsuccess'
      | true =>
        rw [hsuccess] at h
        cases htarget : target t config i.input c.suffix i.choices.output with
        | error f =>
          -- there is no path for the output
          rw [htarget] at h
          obtain ⟨rfl, rfl⟩ := tree_result_inj h
          refine .untouched (fun c' goal => ?_) (fun q => rfl) (by simp)
          rw [hiff]
          rintro ⟨heq, -, hgoal, -⟩
          obtain rfl := Except.ok.inj heq
          cases htarget.symm.trans hgoal
        | ok goal =>
          rw [htarget] at h
          cases hstore : store t goal (c.written i.input.name) with
          | mk made fault =>
            -- from here on the file may change, and what is left is the effect of storing
            have hstored : Compiled t i made (fault.elim (.written goal) .stopped) := by
              refine compiled_of_store (fun hopen => (hiff c goal).mpr ⟨rfl, hsuccess, htarget, hopen⟩) hstore ?_
              rintro hclosed c' goal' hopens
              obtain ⟨heq, -, hgoal, hopen⟩ := (hiff c' goal').mp hopens
              obtain rfl := Except.ok.inj heq
              obtain rfl := Except.ok.inj (htarget.symm.trans hgoal)
              exact hclosed hopen
            simp only [hstore] at h
            cases fault with
            | some f =>
              obtain ⟨rfl, rfl⟩ := tree_result_inj h
              exact hstored
            | none =>
              obtain ⟨rfl, rfl⟩ := tree_result_inj h
              exact hstored

/-! ### Building -/

theorem giveUp_tree (t : FileTree) (printed : Printed) (f : Fault) : (giveUp t printed f).tree = t := by
  unfold giveUp
  split <;> rfl

theorem giveUp_ending (t : FileTree) (printed : Printed) (f : Fault) : (giveUp t printed f).ending ≠ .exit 0 := by
  unfold giveUp
  split <;> simp

theorem withoutInput?_effect {what : Text} {o : Outcome} (h : withoutInput? t what input = some o) :
    o.tree = t ∧ o.ending ≠ .exit 0 := by
  unfold withoutInput? at h
  split at h
  · obtain rfl := Option.some.inj h
    exact ⟨rfl, by simp⟩
  · obtain rfl := Option.some.inj h
    exact ⟨rfl, by simp⟩
  · cases h

/-- **What a build into a file can do.** -/
inductive Built (t : FileTree) (i : Invocation) (m : Machine) (o : Outcome) : Prop
  /-- The output is at the output path, no other file has changed, and the build ends with 0. -/
  | written {c : Compilation} {goal : Path} (hopens : Opens t i c goal) (hname : i.input.name.isText = true)
      (hprints : m.Prints (i.input.written ++ goal.written)) (hfile : Leaves t o.tree goal (Utf8.encode c.output))
      (hending : o.ending = .exit 0)
  /-- The output is at the output path, and the line that tells so cannot be printed. -/
  | unreported {c : Compilation} {goal : Path} {f : Name.Fault} (hopens : Opens t i c goal)
      (hname : i.input.name.isText = true) (hprints : ¬ m.Prints (i.input.written ++ goal.written))
      (hfile : Leaves t o.tree goal (Utf8.encode c.output)) (hending : o.ending = .fault (.encoding f))
  /-- The output names its source, and the name is no text:  the file at the output path is empty. -/
  | emptied {c : Compilation} {goal : Path} {f : Name.Fault} (hopens : Opens t i c goal)
      (hname : i.input.name.isText = false) (hshown : (c.written i.input.name).shown = c.output)
      (hencode : (c.written i.input.name).encode = .error f) (hfile : Leaves t o.tree goal [])
      (hending : o.ending = .fault (.encoding f))
  /-- The build does not get as far as opening the output path, and every file is as it was. -/
  | untouched (hopens : ∀ c goal, ¬ Opens t i c goal) (hfiles : ∀ q, o.tree.file? q = t.file? q)
      (hending : o.ending ≠ .exit 0)

theorem prints_compiled_iff {a b : Name} :
    m.Prints ("Compiled: " ++ a ++ " -> " ++ b ++ "\n") ↔ m.Prints (a ++ b) := by
  simp only [Machine.prints_append, m.prints_ofText, true_and, and_true]

/-- The way out of a build that has compiled to a file. -/
theorem Compiled.built {i : Invocation} {made : FileTree} {printed : Printed} {result : Result}
    (hinput : ∃ n, i.input = Path.ofName n) (h : Compiled t i made result) :
    Built t i m (finishBuild m i.input made printed result) := by
  cases h with
  | @written c goal hopens hname hfile hresult =>
    subst hresult
    rw [finishBuild]
    -- the file is written, and the build still has to tell so
    by_cases hprints : m.Prints (i.input.written ++ goal.written)
    · rw [conclude_of_prints (prints_compiled_iff.mpr hprints)]
      exact .written hopens hname hprints hfile rfl
    · obtain ⟨f, hf⟩ := conclude_of_not_prints (fun h => hprints (prints_compiled_iff.mp h)) made printed
      rw [hf]
      exact .unreported hopens hname hprints hfile rfl
  | @emptied c goal f hopens hname hencode hfile hresult =>
    subst hresult
    -- the output that could not be written is the text of the compilation, but for the name
    have hshown : (c.written i.input.name).shown = c.output := by
      obtain ⟨n, hn⟩ := hinput
      obtain ⟨config, source, output, -, -, hcompile, hsuccess, -⟩ := hopens
      rw [hn] at hcompile ⊢
      exact Compilation.shown_written hcompile hsuccess
    exact .emptied hopens hname hshown hencode hfile rfl
  | untouched hopens hfiles hresult =>
    cases result with
    | written goal => exact absurd rfl (hresult goal)
    | failed => exact .untouched hopens hfiles (by simp [finishBuild])
    | stopped f =>
      -- giving up changes no file
      refine .untouched hopens (fun q => ?_) (giveUp_ending made printed f)
      exact (congrArg (FileTree.file? · q) (giveUp_tree made printed f)).trans (hfiles q)

theorem build_built {i : Invocation} (hinput : ∃ n, i.input = Path.ofName n) (hfile : i.choices.toOutput = false)
    (t : FileTree) (m : Machine) : Built t i m (build t i m) := by
  unfold build
  cases hwithout : withoutInput? t "File" i.input with
  | some o =>
    obtain ⟨htree, hending⟩ := withoutInput?_effect hwithout
    refine .untouched ?_ (fun q => congrArg (FileTree.file? · q) htree) hending
    rintro c goal ⟨config, source, output, -, hread, -⟩
    cases hwithout.symm.trans (withoutInput?_of_readSource "File" hread)
  | none =>
    cases hconfig : Config.load t t.homePath with
    | error f =>
      refine .untouched ?_ (fun q => congrArg (FileTree.file? · q) (giveUp_tree t {} f)) (giveUp_ending t {} f)
      rintro c goal ⟨config, source, output, hload, -⟩
      cases hconfig.symm.trans hload
    | ok config =>
      simp only [hfile]
      cases hc : compileToFile t config i.verbose i.choices.strict i.choices.output i.input with
      | mk made rest =>
        obtain ⟨printed, result⟩ := rest
        exact (compileToFile_compiled hconfig hc).built hinput

/-! ### Strict and lenient builds -/

/-- The outcome of a build that stops at the errors of its source: the parser fails, this is told last, and the tree is
as it was. -/
def Refuses (t : FileTree) (input : Path) (source : Text) (o : Outcome) : Prop :=
  ∃ c f shown, compile (some input.toText) true source = .ok c ∧ c.error = some f ∧ f.kind = .parser ∧
    o.ending = .exit 1 ∧ o.tree = t ∧ o.printed = shown ++ showFailure f

theorem build_refuses {config : Config} {i : Invocation} (hread : readSource t i.input = .ok source)
    (hconfig : Config.load t t.homePath = .ok config) (hstrict : i.choices.strict = true)
    (h : (documentOf i.input source).Refused true) : Refuses t i.input source (build t i m) := by
  obtain ⟨f, hkind, hrefused⟩ := Document.compile_of_refused (some i.input.toText) h
  obtain ⟨c, hcompile, herror⟩ : ∃ c, compile (some i.input.toText) true source = .ok c ∧ c.error = some f :=
    ⟨_, hrefused, rfl⟩
  have hfailed : c.success = false := by rw [Compilation.success, herror, Option.isNone_some]
  obtain ⟨shown, hshown⟩ := compileFile_printed i.verbose hread hcompile herror
  have hresult := compileFile_of_readSource i.verbose true hread
  rw [hcompile] at hresult
  refine ⟨c, f, shown, hcompile, herror, hkind, ?_⟩
  cases hc : compileFile t i.verbose true i.input with
  | mk printed result =>
    rw [hc] at hshown hresult
    obtain rfl : printed = shown ++ showFailure f := hshown
    obtain rfl : result = .ok c := hresult
    unfold build
    rw [withoutInput?_of_readSource "File" hread, hconfig]
    cases hout : i.choices.toOutput with
    | true => simp [print, hstrict, hc, hfailed]
    | false => simp [compileToFile, finishBuild, hstrict, hc, hfailed]

/-- The build that does not mind errors. -/
def Invocation.lenient (i : Invocation) : Invocation := { i with choices := { i.choices with strict := false } }

/-- Where a strict build succeeds, the lenient build does the same. -/
theorem build_lenient {i : Invocation} (hstrict : i.choices.strict = true) (h : (build t i m).ending = .exit 0) :
    build t i.lenient m = build t i m := by
  have hsame : ∀ config, Config.load t t.homePath = .ok config →
      compileFile t i.verbose config.strict i.input = compileFile t i.verbose true i.input := by
    intro config hconfig
    cases hread : readSource t i.input with
    | error f =>
      unfold compileFile
      simp only [hread]
    | ok source =>
      -- a source with errors would have ended the strict build with 1
      have hn : ¬ (documentOf i.input source).Refused true := by
        intro hrefused
        obtain ⟨c, f, shown, -, -, -, hone, -⟩ := build_refuses (m := m) hread hconfig hstrict hrefused
        rw [h] at hone
        cases hone
      cases config.strict with
      | true => rfl
      | false => exact (compileFile_lenient i.verbose hread hn).symm
  unfold build Invocation.lenient
  cases hinput : withoutInput? t "File" i.input with
  | some o => rfl
  | none =>
    cases hconfig : Config.load t t.homePath with
    | error f => rfl
    | ok config =>
      have hcompile := hsame config hconfig
      simp only [print, compileToFile, hstrict, Bool.true_or, Bool.false_or, hcompile]

/-! ### Command lines -/

section Start

variable {args : List Name} {i : Invocation}

theorem start_build (t : FileTree) (m : Machine) (edits : List FileTree.Edit) (h : readArguments args = .ok i)
    (hverb : i.verb = .build) : start t args m edits = build t i m := by
  unfold start run
  simp only [h, hverb]

theorem start_check (t : FileTree) (m : Machine) (edits : List FileTree.Edit) (h : readArguments args = .ok i)
    (hverb : i.verb = .check) : start t args m edits = check t i m := by
  unfold start run
  simp only [h, hverb]

/-- The input of a command is a path that was read. -/
theorem input_of_readArguments (h : readArguments args = .ok i) : ∃ n, i.input = Path.ofName n := by
  unfold readArguments at h
  split at h
  · cases h
  split at h
  · cases h
  split at h
  · cases h
  split at h
  · cases h
  split at h
  · obtain rfl := Except.ok.inj h
    exact ⟨_, rfl⟩
  · cases h
  · cases h

end Start

/-- **Build, strict build and check agree, and what a build does to the files.**  Of a source that can be read, and with
settings that can be read:  a check ends with 1 exactly when a strict build stops at the errors of the source, and else
with 0, unless its path cannot be printed.  A strict build that ends with 0 does what the lenient build does.  A build
into a file that ends with 0 has written the output to the output path, and no other file.  One that ends otherwise
leaves every file as it was, but in two cases:  it has written the output and cannot print that it has, or it has
emptied the file at the output path because the output names a source whose name is no text. -/
theorem builds_agree (t : FileTree) (m : Machine) (edits : List FileTree.Edit) :
    (∀ checkArgs strictArgs checking building source config,
        readArguments checkArgs = .ok checking → checking.verb = .check →
        readArguments strictArgs = .ok building → building.verb = .build → building.choices.strict = true →
        building.input = checking.input → readSource t checking.input = .ok source →
        Config.load t t.homePath = .ok config →
        ((start t checkArgs m edits).ending = .exit 1 ↔
          Refuses t checking.input source (start t strictArgs m edits)) ∧
        ((start t checkArgs m edits).ending = .exit 0 ↔
          ¬ Refuses t checking.input source (start t strictArgs m edits) ∧ m.Prints checking.input.written)) ∧
      (∀ strictArgs lenientArgs i, readArguments strictArgs = .ok i → i.verb = .build → i.choices.strict = true →
        readArguments lenientArgs = .ok i.lenient → (start t strictArgs m edits).ending = .exit 0 →
        start t lenientArgs m edits = start t strictArgs m edits) ∧
      ∀ args i, readArguments args = .ok i → i.verb = .build → i.choices.toOutput = false →
        Built t i m (start t args m edits) := by
  refine ⟨?_, ?_, ?_⟩
  · intro checkArgs strictArgs checking building source config hcheck hcheckVerb hstrict hverb hstrict' hinput hread
      hconfig
    rw [start_check t m edits hcheck hcheckVerb, start_build t m edits hstrict hverb]
    obtain ⟨hone, hzero⟩ := check_ending hread m
    -- both commands ask whether the document has errors
    have hrefuses : Diagnostic.errors (documentOf checking.input source).diagnostics ≠ [] ↔
        Refuses t checking.input source (build t building m) := by
      constructor
      · intro herrors
        rw [← hinput] at hread herrors ⊢
        exact build_refuses hread hconfig hstrict' ⟨rfl, herrors⟩
      · rintro ⟨c, f, shown, hcompile, herror, hkind, -⟩
        exact (refused_of_kind hcompile herror hkind).2
    rw [hone, hzero, ← hrefuses, Ne, Classical.not_not]
    exact ⟨Iff.rfl, Iff.rfl⟩
  · intro strictArgs lenientArgs i hstrict hverb hstrict' hlenient hexit
    rw [start_build t m edits hstrict hverb] at hexit ⊢
    rw [start_build t m edits hlenient hverb]
    exact build_lenient hstrict' hexit
  · intro args i hargs hverb hfile
    rw [start_build t m edits hargs hverb]
    exact build_built (input_of_readArguments hargs) hfile t m

/-- A working directory with a source, whose output is a link into another directory. -/
def linkedTree (source : Text) : FileTree :=
  { home := ["w"]
    entries := [(["w"], .directory 0), (["w", "a.ygg"], .file (Utf8.encode source) 0),
      (["w", "a.vue"], .link (Path.ofName "out/b.vue")), (["w", "out"], .directory 0)] }

/-- A source with an error, and one without. -/
theorem builds_agree_link :
    (start (linkedTree "state = 5") ["check", "a.ygg"] {} []).ending = .exit 1 ∧
      Refuses (linkedTree "state = 5") (Path.ofName "a.ygg") "state = 5"
        (start (linkedTree "state = 5") ["build", "a.ygg", "--strict"] {} []) ∧
      start (linkedTree "VBox") ["build", "a.ygg"] {} [] =
        start (linkedTree "VBox") ["build", "a.ygg", "--strict"] {} [] ∧
      Built (linkedTree "VBox") { verb := .build, input := Path.ofName "a.ygg", choices := { strict := true } } {}
        (start (linkedTree "VBox") ["build", "a.ygg", "--strict"] {} []) := by
  have hcheck : readArguments ["check", "a.ygg"] = .ok { verb := .check, input := Path.ofName "a.ygg" } := by
    decide +kernel
  have hstrict : readArguments ["build", "a.ygg", "--strict"] =
      .ok { verb := .build, input := Path.ofName "a.ygg", choices := { strict := true } } := by decide +kernel
  have hlenient : readArguments ["build", "a.ygg"] = .ok { verb := .build, input := Path.ofName "a.ygg" } := by
    decide +kernel
  have hread : readSource (linkedTree "state = 5") (Path.ofName "a.ygg") = .ok "state = 5" := by decide +kernel
  have hconfig : Config.load (linkedTree "state = 5") (linkedTree "state = 5").homePath = .ok {} := by decide +kernel
  have hone : (start (linkedTree "state = 5") ["check", "a.ygg"] {} []).ending = .exit 1 := by decide +kernel
  have hzero : (start (linkedTree "VBox") ["build", "a.ygg", "--strict"] {} []).ending = .exit 0 := by decide +kernel
  obtain ⟨hrefuses, -⟩ := builds_agree (linkedTree "state = 5") {} []
  obtain ⟨-, hsame, hbuilt⟩ := builds_agree (linkedTree "VBox") {} []
  refine ⟨hone, ?_, hsame _ _ _ hstrict rfl rfl hlenient hzero, hbuilt _ _ hstrict rfl rfl⟩
  exact (hrefuses _ _ _ _ _ _ hcheck rfl hstrict rfl rfl rfl hread hconfig).1.mp hone

/-- A name that starts with the byte `0xff`. -/
def strayName : Name := .stray 127 :: Name.ofText ".ygg"

/-- A working directory with a source of that name, and with a file that its output may replace. -/
def strayTree : FileTree :=
  { home := ["w"]
    entries := [(["w"], .directory 0), (["w", strayName], .file (Utf8.encode "VBox") 0),
      (["w", "out.vue"], .file (Utf8.encode "old") 0)] }

/-- The source can be read and compiles, the build does not end with 0, and a file has changed. -/
theorem stray_name_empties_output :
    readSource strayTree (Path.ofName strayName) = .ok "VBox" ∧
      (start strayTree ["build", strayName, "-o", "out.vue"] {} []).ending = .fault (.encoding ⟨30, 1, 127⟩) ∧
      strayTree.file? ["w", "out.vue"] = some (Utf8.encode "old") ∧
      (start strayTree ["build", strayName, "-o", "out.vue"] {} []).tree.file? ["w", "out.vue"] = some [] := by
  decide +kernel

end Trellis.Command
