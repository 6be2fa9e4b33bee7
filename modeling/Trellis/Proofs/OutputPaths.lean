import Mathlib.Data.List.Basic
import Mathlib.Tactic.Tauto
import Trellis.Proofs.PortSpellings
import Trellis.Proofs.WatchFaults
import Trellis.Proofs.WatchStart

/-!
# Where the results of a watch go

A watch of a directory names each result after the stem of its source.  A directory that is asked for or configured
receives all results (`Watch.receiver?`); without one, a result stands beside its source.  So two results share a path
exactly when the sources have one stem and one kind of output and, beside the sources, one directory
(`Watch.resultPath_eq_iff`).  A source has its stem before the suffix; only the name `.ygg` is all stem
(`Path.stem_of_source`).
-/

namespace Trellis

/-! ### Stems -/

namespace Path

variable {p q : Path} {suffix suffix' : Text}

/-- The last component without its suffix. -/
def stem (p : Path) : Name := (splitName p.name).1

theorem splitName_append {stem ext : Name} (hext : .char '.' ∉ ext) (hne : ext ≠ []) :
    splitName (stem ++ .char '.' :: ext) =
      if stem = [] then (.char '.' :: ext, []) else (stem, .char '.' :: ext) := by
  have hcut : Text.cutLast? (.char '.') (stem ++ .char '.' :: ext) = some (stem, ext) := by
    unfold Text.cutLast?
    rw [List.reverse_append, List.reverse_cons, List.append_assoc, List.singleton_append,
      Text.cut?_append (fun h => hext (List.mem_reverse.mp h))]
    simp
  unfold splitName
  rw [hcut]
  cases stem with
  | nil => rfl
  | cons c stem => simp [hne]

theorem withName_name (h : p.name ≠ []) : p.withName p.name = p := by
  have hparts : p.parts.dropLast ++ [p.name] = p.parts := by
    unfold name at h ⊢
    rw [List.getLastD_eq_getLast?] at h ⊢
    cases hlast : p.parts.getLast? with
    | none =>
      rw [hlast] at h
      exact absurd rfl h
    | some n => exact List.dropLast_append_getLast? n hlast
  unfold withName
  rw [hparts]

theorem withName_eq_iff {n n' : Name} : p.withName n = q.withName n' ↔ p.parent = q.parent ∧ n = n' := by
  unfold withName parent
  simp only [Path.mk.injEq]
  constructor
  · rintro ⟨hroot, hparts⟩
    obtain ⟨hparent, hname⟩ := List.append_inj' hparts rfl
    exact ⟨⟨hroot, hparent⟩, List.singleton_inj.mp hname⟩
  · rintro ⟨⟨hroot, hparent⟩, rfl⟩
    exact ⟨hroot, congrArg (· ++ _) hparent⟩

theorem eq_of_parent_name (hp : p.name ≠ []) (hparent : p.parent = q.parent) (hname : p.name = q.name) : p = q := by
  have hq : q.name ≠ [] := hname ▸ hp
  calc p = p.withName p.name := (withName_name hp).symm
    _ = q.withName q.name := withName_eq_iff.mpr ⟨hparent, hname⟩
    _ = q := withName_name hq

@[simp] theorem name_withName (p : Path) (n : Name) : (p.withName n).name = n := by
  unfold name withName
  rw [List.getLastD_eq_getLast?, List.getLast?_append]
  rfl

theorem withSuffix_eq (hsuffix : isSuffix suffix = true) (hname : p.name ≠ []) :
    p.withSuffix suffix = .ok (p.withName (p.stem ++ Name.ofText suffix)) := by
  unfold withSuffix
  rw [if_neg (by simp [hsuffix]), if_neg (by simp [hname])]
  rfl

/-- The stem of a source file: the name `.ygg` is all stem, and in any other name the stem is what stands before the
suffix. -/
theorem stem_of_source (h : Command.sourceSuffix.isSuffixOf p.name = true) :
    (p.name = Command.sourceSuffix ∧ p.stem = Command.sourceSuffix) ∨
      (p.stem ≠ [] ∧ p.name = p.stem ++ Command.sourceSuffix) := by
  obtain ⟨s, hs⟩ := List.isSuffixOf_iff_suffix.mp h
  have hsplit : splitName (s ++ .char '.' :: Name.ofText "ygg") = _ := splitName_append (by decide) (by decide)
  have hstem : p.stem = if s = [] then Command.sourceSuffix else s := by
    unfold stem
    rw [← hs]
    show (splitName (s ++ .char '.' :: Name.ofText "ygg")).1 = _
    rw [hsplit]
    split <;> rfl
  by_cases hnil : s = []
  · rw [if_pos hnil] at hstem
    rw [hnil] at hs
    exact .inl ⟨hs.symm, hstem⟩
  · rw [if_neg hnil] at hstem
    rw [hstem]
    exact .inr ⟨hnil, hs.symm⟩

theorem name_ne_nil_of_source (h : Command.sourceSuffix.isSuffixOf p.name = true) : p.name ≠ [] := by
  obtain ⟨s, hs⟩ := List.isSuffixOf_iff_suffix.mp h
  rw [← hs]
  exact List.append_ne_nil_of_right_ne_nil s (by decide)

/-- Two names of source files with one stem. -/
theorem names_of_stem (hp : Command.sourceSuffix.isSuffixOf p.name = true)
    (hq : Command.sourceSuffix.isSuffixOf q.name = true) (hstem : p.stem = q.stem) (hne : p.name ≠ q.name) :
    (p.name = ".ygg" ∧ q.name = ".ygg.ygg") ∨ (p.name = ".ygg.ygg" ∧ q.name = ".ygg") := by
  rcases stem_of_source hp with ⟨hpn, hps⟩ | ⟨-, hpn⟩ <;> rcases stem_of_source hq with ⟨hqn, hqs⟩ | ⟨-, hqn⟩
  · exact absurd (hpn.trans hqn.symm) hne
  · rw [← hstem, hps] at hqn
    exact .inl ⟨hpn, hqn⟩
  · rw [hstem, hqs] at hpn
    exact .inr ⟨hpn, hqn⟩
  · exact absurd (hpn.trans ((congrArg (· ++ _) hstem).trans hqn.symm)) hne

end Path

/-! ### The path of a result -/

namespace Command

variable {t u u' : FileTree} {i : Invocation} {w : Watch} {p q : Path} {suffix suffix' : Text}

section

variable {r : Path} (t : FileTree) (hr : p.withSuffix suffix = .ok r)

include hr

/-- An output without a suffix receives a file named after the input, whether or not it exists. -/
theorem outputPath_asked {o : Path} (ho : o.suffix = []) (outDir : Option Path) :
    outputPath t p suffix (some o) outDir =
      ((t.look o).mapError Fault.file).map fun _ => o.append ⟨[], [r.name]⟩ := by
  unfold outputPath
  rw [hr]
  cases hlook : t.look o with
  | error f => simp only [hlook]; rfl
  | ok found =>
    cases found with
    | none => simp only [hlook, ho]; rfl
    | some e => cases e <;> simp only [hlook, ho] <;> rfl

theorem outputPath_configured (d : Path) : outputPath t p suffix none (some d) = .ok (d.append ⟨[], [r.name]⟩) := by
  unfold outputPath
  rw [hr]
  rfl

theorem outputPath_beside : outputPath t p suffix none none = .ok r := by
  unfold outputPath
  rw [hr]
  rfl

end

namespace Watch

/-- The directory that receives all results: the output that is asked for, or the configured one. -/
def receiver? (w : Watch) : Option Path := (w.output.bind Setting.value?).or w.config.outDir

/-- The path of the result for a source: the stem with the suffix of the output, in the directory that receives all
results, or else beside the source. -/
def resultPath (w : Watch) (p : Path) (suffix : Text) : Path :=
  match w.receiver? with
  | some d => d.append ⟨[], [p.stem ++ Name.ofText suffix]⟩
  | none => p.withName (p.stem ++ Name.ofText suffix)

/-- The result for a source goes to the path, unless nobody can look at the output that is asked for. -/
def Aims (w : Watch) (t : FileTree) (p : Path) (suffix : Text) (goal : Path) : Prop :=
  target t w.config p suffix w.output = .ok goal ∨
    ∃ o f, w.output = some (.given o) ∧ t.look o = .error f ∧ target t w.config p suffix w.output = .error (.file f)

theorem aims_resultPath (houtput : w.output = none ∨ ∃ o, w.output = some (.given o) ∧ o.suffix = [])
    (hsuffix : Path.isSuffix suffix = true) (hname : p.name ≠ []) (t : FileTree) :
    w.Aims t p suffix (w.resultPath p suffix) := by
  have hr := Path.withSuffix_eq hsuffix hname
  unfold Aims resultPath receiver?
  rcases houtput with hnone | ⟨o, hsome, hempty⟩
  · -- nothing is asked for: the result goes to the configured directory, or beside its source
    have htarget : target t w.config p suffix none = outputPath t p suffix none w.config.outDir := rfl
    left
    rw [hnone, htarget]
    cases w.config.outDir with
    | none => exact outputPath_beside t hr
    | some d =>
      have hconfigured := outputPath_configured t hr d
      rw [Path.name_withName] at hconfigured
      exact hconfigured
  · -- a directory is asked for, and looking at it may fail
    have hasked := outputPath_asked t hr hempty w.config.outDir
    rw [Path.name_withName] at hasked
    rw [hsome]
    cases hlook : t.look o with
    | error f =>
      rw [hlook] at hasked
      exact .inr ⟨o, f, rfl, hlook, hasked⟩
    | ok found =>
      rw [hlook] at hasked
      exact .inl hasked

/-- The suffix of an output. -/
theorem suffix_of_compiles {c : Compilation} (h : w.Compiles t p c) : c.suffix = ".vue" ∨ c.suffix = ".js" := by
  obtain ⟨source, -, hcompile⟩ := h
  rw [Document.suffix_of_compile hcompile, Document.outputSuffix]
  split
  · exact .inr rfl
  · exact .inl rfl

theorem isSuffix_of_output (h : suffix = ".vue" ∨ suffix = ".js") : Path.isSuffix suffix = true := by
  rcases h with rfl | rfl <;> decide

/-- Stems and suffixes can be told from the names that they make. -/
theorem stem_append_inj {stem stem' : Name} (h : suffix = ".vue" ∨ suffix = ".js")
    (h' : suffix' = ".vue" ∨ suffix' = ".js") :
    stem ++ Name.ofText suffix = stem' ++ Name.ofText suffix' ↔ suffix = suffix' ∧ stem = stem' := by
  have hvue : ∀ s : Name, (s ++ Name.ofText ".vue").getLast? = some (.char 'e') := fun s => by
    rw [List.getLast?_append]
    rfl
  have hjs : ∀ s : Name, (s ++ Name.ofText ".js").getLast? = some (.char 's') := fun s => by
    rw [List.getLast?_append]
    rfl
  refine ⟨fun heq => ?_, fun ⟨hsuffix, hstem⟩ => by rw [hsuffix, hstem]⟩
  have hlast := congrArg List.getLast? heq
  rcases h with rfl | rfl <;> rcases h' with rfl | rfl
  · exact ⟨rfl, List.append_cancel_right heq⟩
  · rw [hvue, hjs] at hlast
    exact absurd hlast (by decide)
  · rw [hvue, hjs] at hlast
    exact absurd hlast (by decide)
  · exact ⟨rfl, List.append_cancel_right heq⟩

/-- **Two results share a path** exactly when the stems and the kinds of output are the same and, beside the sources, the
directories are. -/
theorem resultPath_eq_iff (h : suffix = ".vue" ∨ suffix = ".js") (h' : suffix' = ".vue" ∨ suffix' = ".js") :
    w.resultPath p suffix = w.resultPath q suffix' ↔
      suffix = suffix' ∧ p.stem = q.stem ∧ (w.receiver? = none → p.parent = q.parent) := by
  unfold resultPath
  cases w.receiver? with
  | none =>
    simp only [Path.withName_eq_iff, stem_append_inj h h', forall_const]
    tauto
  | some d =>
    have happend : ∀ n, d.append ⟨[], [n]⟩ = { d with parts := d.parts ++ [n] } := fun _ => rfl
    simp only [happend, Path.mk.injEq, true_and, List.append_cancel_left_eq, List.cons.injEq, and_true,
      stem_append_inj h h', reduceCtorEq, false_imp_iff]

/-- A search for sources finds paths that have the suffix of sources. -/
theorem isSource_of_mem_search (h : p ∈ t.search sourceSuffix q) : sourceSuffix.isSuffixOf p.name = true := by
  unfold FileTree.search at h
  split at h
  · rw [List.mem_mergeSort] at h
    obtain ⟨⟨parts, e⟩, hfound, rfl⟩ := List.mem_map.mp (h : p ∈ List.map _ _)
    have hends : sourceSuffix.isSuffixOf (parts.getLastD []) = true := (List.mem_filter.mp hfound).2
    have hne : parts ≠ [] := by
      rintro rfl
      exact absurd hends (by decide)
    unfold Path.name
    rw [List.getLastD_eq_getLast?] at hends ⊢
    rwa [List.getLast?_append_of_ne_nil _ hne]
  · cases h

/-- Where a watch finds several files, all have the suffix of sources. -/
theorem isSource_of_mem_files (hp : p ∈ w.files t) (hq : q ∈ w.files t) (hne : p ≠ q) :
    sourceSuffix.isSuffixOf p.name = true ∧ sourceSuffix.isSuffixOf q.name = true := by
  unfold files at hp hq
  split at hp
  · next hfile =>
    rw [if_pos hfile] at hq
    exact absurd ((List.mem_singleton.mp hp).trans (List.mem_singleton.mp hq).symm) hne
  · next hfile =>
    rw [if_neg hfile] at hq
    exact ⟨isSource_of_mem_search hp, isSource_of_mem_search hq⟩

end Watch

/-- **When results of a watch share a path.**  A watch of a directory is started, and two different sources that it finds
are compiled.  Their results go to paths that are the same exactly when the sources have one stem and one kind of output
and, where no directory receives the results, stand in one directory; in that case one source is named `.ygg` and the
other `.ygg.ygg`. -/
theorem watch_results_share (hw : startWatch t i = .ok w) (hdir : t.isDirectory i.input = true) (hp : p ∈ w.files u)
    (hq : q ∈ w.files u) (hne : p ≠ q) {u₁ u₂ : FileTree} {c c' : Compilation} (hc : w.Compiles u₁ p c)
    (hc' : w.Compiles u₂ q c') :
    ∃ goal goal', w.Aims u₁ p c.suffix goal ∧ w.Aims u₂ q c'.suffix goal' ∧
      (goal = goal' ↔ c.suffix = c'.suffix ∧ p.stem = q.stem ∧ (w.receiver? = none → p.parent = q.parent)) ∧
      (w.receiver? = none → goal = goal' →
        (p.name = ".ygg" ∧ q.name = ".ygg.ygg") ∨ (p.name = ".ygg.ygg" ∧ q.name = ".ygg")) := by
  obtain ⟨hps, hqs⟩ := Watch.isSource_of_mem_files hp hq hne
  obtain ⟨-, -, -, houtput⟩ := startWatch_eq_ok hw
  have hsuffix := Watch.suffix_of_compiles hc
  have hsuffix' := Watch.suffix_of_compiles hc'
  have hshare := Watch.resultPath_eq_iff (w := w) (p := p) (q := q) hsuffix hsuffix'
  refine ⟨w.resultPath p c.suffix, w.resultPath q c'.suffix, ?_, ?_, hshare, fun hbeside heq => ?_⟩
  · exact Watch.aims_resultPath (houtput hdir) (Watch.isSuffix_of_output hsuffix) (Path.name_ne_nil_of_source hps) u₁
  · exact Watch.aims_resultPath (houtput hdir) (Watch.isSuffix_of_output hsuffix') (Path.name_ne_nil_of_source hqs) u₂
  · obtain ⟨-, hstem, hparent⟩ := hshare.mp heq
    refine Path.names_of_stem hps hqs hstem fun hname => hne ?_
    exact Path.eq_of_parent_name (Path.name_ne_nil_of_source hps) (hparent hbeside) hname

/-! ### Two sources with one name -/

/-- A source that can be read compiles, if its text does. -/
theorem Watch.exists_compiles {source : Text} (hread : readSource t p = .ok source)
    (h : (compile (some p.toText) (w.strict || w.config.strict) source).toOption.map (fun c => (c.success, c.suffix)) =
      some (true, suffix)) : ∃ c, w.Compiles t p c ∧ c.success = true ∧ c.suffix = suffix := by
  cases hcompile : compile (some p.toText) (w.strict || w.config.strict) source with
  | error fault =>
    rw [hcompile] at h
    cases h
  | ok c =>
    rw [hcompile] at h
    obtain ⟨hsuccess, hsuffix⟩ := Prod.mk.inj (Option.some.inj h)
    exact ⟨c, ⟨source, hread, hcompile⟩, hsuccess, hsuffix⟩

/-- A working directory with two directories and a source of one name in each. -/
def twinTree : FileTree :=
  { home := ["w"]
    entries := [(["w"], .directory 0), (["w", "a"], .directory 0), (["w", "a", "x.ygg"], .file [] 0),
      (["w", "b"], .directory 0), (["w", "b", "x.ygg"], .file [] 0)] }

/-- A watch of the working directory that is asked for an output, or for none. -/
def homeWatch (output : Option (Setting Path)) : Watch := ⟨Path.ofName ".", output, {}, false, false⟩

theorem exists_compiles_twins (output : Option (Setting Path)) :
    (∃ c, (homeWatch output).Compiles twinTree (Path.ofName "a/x.ygg") c ∧ c.success = true ∧ c.suffix = ".vue") ∧
      ∃ c, (homeWatch output).Compiles twinTree (Path.ofName "b/x.ygg") c ∧ c.success = true ∧ c.suffix = ".vue" := by
  have hread : readSource twinTree (Path.ofName "a/x.ygg") = .ok [] := by decide +kernel
  have hread' : readSource twinTree (Path.ofName "b/x.ygg") = .ok [] := by decide +kernel
  have hcompile : (compile (some (Path.ofName "a/x.ygg").toText) false []).toOption.map
      (fun c => (c.success, c.suffix)) = some (true, ".vue".toList) := by decide +kernel
  have hcompile' : (compile (some (Path.ofName "b/x.ygg").toText) false []).toOption.map
      (fun c => (c.success, c.suffix)) = some (true, ".vue".toList) := by decide +kernel
  exact ⟨Watch.exists_compiles hread hcompile, Watch.exists_compiles hread' hcompile'⟩

theorem files_homeWatch (output : Option (Setting Path)) :
    (homeWatch output).files twinTree = [Path.ofName "a/x.ygg", Path.ofName "b/x.ygg"] := by
  have hfile : twinTree.isFile (Path.ofName ".") = false := by decide +kernel
  have hfind : twinTree.find (Path.ofName ".") = .ok (.directory 0) := by decide +kernel
  have hplace : twinTree.resolve true (Path.ofName ".") = .ok ["w"] := by decide +kernel
  have hfound : twinTree.found sourceSuffix (Path.ofName ".") ["w"] =
      [Path.ofName "a/x.ygg", Path.ofName "b/x.ygg"] := by decide +kernel
  have hsorted : [Path.ofName "a/x.ygg", Path.ofName "b/x.ygg"].mergeSort Path.le =
      [Path.ofName "a/x.ygg", Path.ofName "b/x.ygg"] := List.mergeSort_of_pairwise (by decide +kernel)
  unfold Watch.files homeWatch
  simp only [hfile, FileTree.search, hfind, hplace, hfound, hsorted]
  rfl

/-- Beside their sources, the results for two sources of one name are apart. -/
theorem watch_results_share_beside :
    ∃ goal goal', (homeWatch none).Aims twinTree (Path.ofName "a/x.ygg") ".vue" goal ∧
      (homeWatch none).Aims twinTree (Path.ofName "b/x.ygg") ".vue" goal' ∧ goal ≠ goal' := by
  have hstart : startWatch twinTree { verb := .watch, input := Path.ofName "." } = .ok (homeWatch none) := by
    decide +kernel
  have hfiles := files_homeWatch none
  obtain ⟨⟨c, hc, -, hsuffix⟩, c', hc', -, hsuffix'⟩ := exists_compiles_twins none
  obtain ⟨goal, goal', haims, haims', hshare, -⟩ := watch_results_share hstart (by decide +kernel)
    (p := Path.ofName "a/x.ygg") (u := twinTree) (by simp [hfiles]) (q := Path.ofName "b/x.ygg")
    (by simp [hfiles]) (by decide +kernel) hc hc'
  rw [hsuffix] at haims
  rw [hsuffix'] at haims'
  refine ⟨goal, goal', haims, haims', fun heq => ?_⟩
  exact absurd ((hshare.mp heq).2.2 rfl) (by decide +kernel)

/-- A directory that receives all results gets one file for two sources of one name. -/
theorem twins_share_result :
    let w := homeWatch (some (.given (Path.ofName "out")))
    startWatch twinTree { verb := .watch, input := Path.ofName ".", choices := { output := w.output } } = .ok w ∧
      twinTree.isDirectory (Path.ofName ".") = true ∧
      ∃ p ∈ w.files twinTree, ∃ q ∈ w.files twinTree, p ≠ q ∧
        ∃ c c' goal, w.Compiles twinTree p c ∧ c.success = true ∧ w.Compiles twinTree q c' ∧ c'.success = true ∧
          target twinTree w.config p c.suffix w.output = .ok goal ∧
            target twinTree w.config q c'.suffix w.output = .ok goal := by
  -- Closed terms, before the watch gets a name: a local definition would be evaluated over and over.
  have hstart : startWatch twinTree
      { verb := .watch, input := Path.ofName ".", choices := { output := some (.given (Path.ofName "out")) } } =
        .ok (homeWatch (some (.given (Path.ofName "out")))) := by decide +kernel
  have htarget : target twinTree {} (Path.ofName "a/x.ygg") ".vue" (some (.given (Path.ofName "out"))) =
      .ok (Path.ofName "out/x.vue") := by decide +kernel
  have htarget' : target twinTree {} (Path.ofName "b/x.ygg") ".vue" (some (.given (Path.ofName "out"))) =
      .ok (Path.ofName "out/x.vue") := by decide +kernel
  intro w
  have hfiles : w.files twinTree = _ := files_homeWatch w.output
  obtain ⟨⟨c, hc, hsuccess, hsuffix⟩, c', hc', hsuccess', hsuffix'⟩ := exists_compiles_twins w.output
  rw [← hsuffix] at htarget
  rw [← hsuffix'] at htarget'
  exact ⟨hstart, by decide +kernel, _, by simp [hfiles], _, by simp [hfiles], by decide +kernel, c, c', _, hc,
    hsuccess, hc', hsuccess', htarget, htarget'⟩

end Command

end Trellis
