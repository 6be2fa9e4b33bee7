import Mathlib.Logic.Basic
import Mathlib.Logic.ExistsUnique
import Trellis.Proofs.Reports

/-!
# No line is lost or half applied

A line that no capture takes and that is no comment is either dropped or accepted.  A dropped line leaves the settled
reading as it is and is reported by one error; an accepted line makes one addition and is reported by no error.  A
line that a capture takes is never reported as unrecognised, malformed or misplaced.
-/

namespace Trellis.Document

/-- The reading apart from what was reported. -/
def Reading.contents (r : Reading) : Reading := { r with diagnostics := [] }

/-! ### An addition can be read off -/

namespace Addition

/-- The addition that leads from one reading to another: what the second has more than the first, or else the tag or
key of its innermost open node. -/
def readOff (r r' : Reading) : Option Addition :=
  if r.state.length < r'.state.length then r'.state.getLast?.map fun d => .state d.typeName d.name d.value
  else if r.aliases.length < r'.aliases.length then r'.aliases.getLast?.map fun a => .aliasOf a.source a.name
  else if r.stack.length < r'.stack.length then r'.stack.head?.map fun f => .node f.head
  else if r.capture.isNone && r'.capture.isSome then r'.capture.map fun c => .capture c.head
  else match r.openServer, r'.openServer with
    | none, some o => some (.server o.server.name o.server.port)
    | some o, some o' =>
      if o.server.state.length < o'.server.state.length then
        o'.server.state.getLast?.map fun d => .serverState d.typeName d.name d.value
      else ofTops r.stack r'.stack
    | _, _ => ofTops r.stack r'.stack
where
  /-- What the innermost open node has got. -/
  ofTops : List Frame → List Frame → Option Addition
    | f :: _, f' :: _ =>
      if f.properties.length < f'.properties.length then f'.properties.getLast?.map fun p => .property p.key p.value
      else match f'.head with
        | .element _ given => given.map .tag
        | .loop _ _ _ given => given.map .loopKey
        | _ => none
    | _, _ => none

variable {filename : Option Text} {t : LineToken} {r r' : Reading} {a b : Addition}

theorem readOff_onTop {change : Frame → Option Frame} (h : r.onTop? change = some r') :
    readOff r r' = readOff.ofTops r.stack r'.stack := by
  obtain ⟨f, fs, f', hs, -, rfl⟩ := Reading.onTop?_eq_some h
  unfold readOff
  cases r.openServer <;> cases r.capture <;> simp [hs]

theorem readOff_eq (h : a.addTo? filename t r = some r') : readOff r r' = some a := by
  cases a with
  | state type name value => cases h; simp [readOff]
  | serverState type name value =>
    obtain ⟨o, ho, rfl⟩ := Option.map_eq_some_iff.mp h
    cases hc : r.capture <;> simp [readOff, ho, hc]
  | aliasOf source name => cases h; simp [readOff]
  | capture head =>
    -- no capture was open, so the one that is open now is new
    simp only [addTo?] at h
    split at h <;> cases h
    rename_i hc
    simp [readOff, Reading.openCapture, Option.not_isSome_iff_eq_none.mp hc]
  | server name port =>
    simp only [addTo?] at h
    split at h <;> cases h
    rename_i ho
    cases hc : r.capture <;> simp [readOff, Option.not_isSome_iff_eq_none.mp ho, hc]
  | node head => cases h; simp [readOff, Reading.push]
  | property key value =>
    -- the last three change the top of the stack, and each changes another part of it
    rw [readOff_onTop h]
    obtain ⟨f, fs, f', hs, hf, rfl⟩ := Reading.onTop?_eq_some h
    obtain rfl := Frame.addProperty?_eq_some hf
    simp [readOff.ofTops, hs]
  | tag name =>
    rw [readOff_onTop h]
    obtain ⟨f, fs, f', hs, hf, rfl⟩ := Reading.onTop?_eq_some h
    obtain ⟨kind, tag, -, rfl⟩ := Frame.setTag?_eq_some hf
    simp [readOff.ofTops, hs]
  | loopKey expression =>
    rw [readOff_onTop h]
    obtain ⟨f, fs, f', hs, hf, rfl⟩ := Reading.onTop?_eq_some h
    obtain ⟨item, index, collection, key, -, rfl⟩ := Frame.setKey?_eq_some hf
    simp [readOff.ofTops, hs]

/-- Different additions lead to different readings. -/
theorem addTo?_injective (ha : a.addTo? filename t r = some r') (hb : b.addTo? filename t r = some r') : a = b :=
  Option.some.inj ((readOff_eq ha).symm.trans (readOff_eq hb))

theorem addTo?_contents (h : a.addTo? filename t r = some r') :
    a.addTo? filename t r.contents = some r'.contents := by
  have htop : ∀ change, r.onTop? change = some r' → r.contents.onTop? change = some r'.contents := by
    intro change h
    obtain ⟨f, fs, f', hs, hf, rfl⟩ := Reading.onTop?_eq_some h
    simp [Reading.onTop?, Reading.contents, hs, hf]
  cases a with
  | serverState type name value =>
    obtain ⟨o, ho, rfl⟩ := Option.map_eq_some_iff.mp h
    simp [addTo?, Reading.contents, ho]
  | capture head =>
    simp only [addTo?] at h
    split at h <;> cases h
    exact if_neg ‹_›
  | server name port =>
    simp only [addTo?] at h
    split at h <;> cases h
    exact if_neg ‹_›
  | property key value => exact htop _ h
  | tag name => exact htop _ h
  | loopKey expression => exact htop _ h
  | _ => cases h; rfl

end Addition

/-! ### The two fates -/

/-- The errors reported about a line. -/
def errorsAt (line : Int) (ds : List Diagnostic) : List Diagnostic := ds.filter fun d => d.isError && d.line = line

/-- The line `t`, read after `r`, is dropped: among the diagnostics `ds` of the document one error is about it, and it
leaves the settled reading as it is. -/
structure Dropped (filename : Option Text) (ds : List Diagnostic) (r : Reading) (t : LineToken) : Prop where
  reported : ∃ d, errorsAt t.line ds = [d] ∧ d.code ∈ dropCodes
  nothing : (r.step filename t).contents = (r.settle filename t).contents

/-- The line `t`, read after `r`, is accepted: no error of the document is about it, and it makes exactly one addition
to the settled reading. -/
structure Accepted (filename : Option Text) (ds : List Diagnostic) (r : Reading) (t : LineToken) : Prop where
  unreported : errorsAt t.line ds = []
  one : ∃! a : Addition, a.addTo? filename t (r.settle filename t).contents = some (r.step filename t).contents

namespace Reading

variable {filename : Option Text} {t : LineToken} {r : Reading}

theorem warnings_level : ∀ p ∈ r.warnings t, p.level = .warning := by
  intro p hp
  unfold warnings at hp
  split at hp
  · cases hp
  · split at hp
    · split at hp
      · obtain rfl := List.mem_singleton.mp hp; rfl
      · cases hp
    · split at hp
      · obtain rfl := List.mem_singleton.mp hp; rfl
      · cases hp
    · cases hp

/-- Warnings are no errors: among what a line reports about itself only the problem it is dropped for is one. -/
theorem errorsAt_own :
    errorsAt t.line ((r.ownProblems filename t).map fun p => p.diagnose filename t.line t.raw) =
      match Fate.ofLine (r.settle filename t).context t with
      | .dropped p => [p.diagnose filename t.line t.raw]
      | .added _ => [] := by
  have hw : errorsAt t.line (((r.settle filename t).warnings t).map fun p => p.diagnose filename t.line t.raw) = [] := by
    refine List.filter_eq_nil_iff.mpr fun d hd => ?_
    obtain ⟨p, hp, rfl⟩ := List.mem_map.mp hd
    simp [warnings_level p hp]
  have hsound := Fate.sound (r.settle filename t).context t
  unfold ownProblems
  cases hf : Fate.ofLine (r.settle filename t).context t with
  | dropped p =>
    rw [hf] at hsound
    have hp : p.level = .error := hsound.1
    simp only [errorsAt, List.map_append, List.filter_append] at hw ⊢
    rw [hw]
    simp [hp]
  | added a =>
    simp only [List.append_nil]
    exact hw

end Reading

/-! ### What is reported about a line of a document -/

section Document

variable {filename : Option Text} {source : Text} {before after : List LineToken} {t : LineToken}

/-- When a line is reached nothing has been reported about it, and it is not among the lines that are held. -/
theorem before_line (filename : Option Text) (h : LineToken.tokenize source = before ++ t :: after) :
    (∀ d ∈ (Reading.run filename before).diagnostics, d.line ≠ t.line) ∧
      ∀ d, FromBody filename (Reading.run filename before).heldLines d → d.line ≠ t.line := by
  have hq : ∀ u ∈ before, ∀ d : Diagnostic, d.line = (u.line : Int) → decide (d.line = (t.line : Int)) = false := by
    intro u hu d hd
    have := (LineToken.line_ne_of_split h).1 u hu
    simp only [decide_eq_false_iff_not]
    omega
  obtain ⟨hrun, hheld⟩ := Reading.foldl_filter before {} (fun d hd => absurd hd (Reading.fromBody_nil d)) hq
  constructor
  · intro d hd hline
    exact List.filter_eq_nil_iff.mp hrun d hd (by simpa using hline)
  · intro d hd
    simpa using hheld d hd

/-- The errors of a document about a line that was not taken are those that the line reported itself. -/
theorem errorsAt_read (h : LineToken.tokenize source = before ++ t :: after)
    (ht : (Reading.run filename before).takes t = false) (hk : t.kind ≠ .comment) :
    errorsAt t.line (read filename source).diagnostics =
      errorsAt t.line (((Reading.run filename before).ownProblems filename t).map
        fun p => p.diagnose filename t.line t.raw) := by
  obtain ⟨hreported, hheld⟩ := before_line filename h
  unfold errorsAt
  rw [Reading.read_filter h]
  · rw [Reading.step_line_diagnostics ht hk]
    have hclose := Reading.closeCapture_diagnostics filename (Reading.run filename before)
    have hbody := Reading.pendingReports_fromBody filename (Reading.run filename before)
    -- what was reported before, and what the open capture reports, is about earlier lines
    have hearlier :
        ((Reading.run filename before).diagnostics ++ (Reading.run filename before).pendingReports filename).filter
        (fun d => d.isError && d.line = (t.line : Int)) = [] := by
      refine List.filter_eq_nil_iff.mpr fun d hd => ?_
      have hline : d.line ≠ t.line := by
        rcases List.mem_append.mp hd with hd | hd
        · exact hreported d hd
        · exact hheld d (hbody d hd)
      simp [hline]
    rw [List.filter_append, hclose, hearlier, List.nil_append]
  · intro d hd
    simp [hd]
  · intro d hd
    -- the line itself is not held
    rw [Reading.heldLines_step ht] at hd
    exact absurd hd (Reading.fromBody_nil d)

/-- A line that a capture takes is not reported as unrecognised, malformed or misplaced. -/
theorem code_not_mem_of_taken (h : LineToken.tokenize source = before ++ t :: after)
    (ht : (Reading.run filename before).takes t = true) :
    ∀ d ∈ (read filename source).diagnostics, d.line = t.line → d.code ∉ dropCodes := by
  intro d hd hline hcode
  have hnil : (read filename source).diagnostics.filter (fun d => d.line = (t.line : Int) && d.code ∈ dropCodes) =
      [] := by
    rw [Reading.read_filter h]
    · rw [Reading.step_takes filename ht]
      refine List.filter_eq_nil_iff.mpr fun e he => ?_
      simp [(before_line filename h).1 e he]
    · intro e he
      simp [he]
    · rintro e ⟨l, -, p, hp, rfl⟩
      simp [not_mem_dropCodes_of_mem_bodyCodes (code_mem_bodyCodes hp)]
  exact List.filter_eq_nil_iff.mp hnil d hd (by simp [hline, hcode])

/-- **No line is lost or half applied.**  Of the lines of a source, those that a capture takes are never reported as
unrecognised, malformed or misplaced; of the others every line but a comment is dropped or accepted, and not both. -/
theorem line_dropped_or_accepted (h : LineToken.tokenize source = before ++ t :: after) :
    ((Reading.run filename before).takes t = true →
      ∀ d ∈ (read filename source).diagnostics, d.line = t.line → d.code ∉ dropCodes) ∧
    ((Reading.run filename before).takes t = false → t.kind ≠ .comment →
      Xor (Dropped filename (read filename source).diagnostics (Reading.run filename before) t)
        (Accepted filename (read filename source).diagnostics (Reading.run filename before) t)) := by
  refine ⟨code_not_mem_of_taken h, fun ht hk => ?_⟩
  have herrors := (errorsAt_read h ht hk).trans Reading.errorsAt_own
  generalize Reading.run filename before = r at ht herrors ⊢
  obtain ⟨p, hf, hdrops, hstep⟩ | ⟨a, hf, -, hstep⟩ := Reading.step_outcome filename ht hk
  · rw [hf] at herrors
    refine .inl ⟨⟨⟨_, herrors, hdrops.2⟩, ?_⟩, fun hacc => ?_⟩
    · rw [hstep]
      rfl
    · exact absurd (herrors.symm.trans hacc.unreported) (List.cons_ne_nil _ _)
  · rw [hf] at herrors
    have hadd : a.addTo? filename t (r.settle filename t).contents = some (r.step filename t).contents :=
      Addition.addTo?_contents (r := (r.settle filename t).warn filename t) hstep
    refine .inr ⟨⟨herrors, a, hadd, fun b hb => Addition.addTo?_injective hb hadd⟩, fun hdrop => ?_⟩
    obtain ⟨d, hd, -⟩ := hdrop.reported
    exact absurd (herrors.symm.trans hd) (List.cons_ne_nil _ _).symm

/-- The third line of a source that opens a function, collects a line and goes on with a stray property. -/
theorem stray_property_dropped_or_accepted :
    ∃ before t after, LineToken.tokenize "fn f()\n  x = 1\n.size: 2\nVBox" = before ++ t :: after ∧
      before.map (·.line) = [1, 2] ∧ t.kind = .property ∧ (Reading.run none before).takes t = false ∧
      Xor (Dropped none (read none "fn f()\n  x = 1\n.size: 2\nVBox").diagnostics
          (Reading.run none before) t)
        (Accepted none (read none "fn f()\n  x = 1\n.size: 2\nVBox").diagnostics
          (Reading.run none before) t) := by
  have h : LineToken.tokenize "fn f()\n  x = 1\n.size: 2\nVBox" =
      [⟨1, 0, .fn, "f()", "fn f()"⟩, ⟨2, 2, .unknown, "x = 1", "  x = 1"⟩] ++
        ⟨3, 0, .property, "size: 2", ".size: 2"⟩ :: [⟨4, 0, .element, "VBox", "VBox"⟩] := by decide
  exact ⟨_, _, _, h, rfl, rfl, rfl, (line_dropped_or_accepted h).2 rfl (by decide)⟩

end Document

end Trellis.Document
