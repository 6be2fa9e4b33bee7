import Trellis.Proofs.LiteralBlock
import Trellis.Proofs.Step
import Trellis.Proofs.Tokens

/-!
# Who reports what

Diagnostics are only ever added.  A line that is neither taken nor a comment adds its own (`ownProblems`), and the end
of a capture adds those about the lines it holds (`FromBody`).  So the diagnostics about a line can be counted at the
one step that reads it: `read_filter` says that no other step changes what is reported about it.
-/

namespace Trellis

namespace Problem

variable (p : Problem) (filename : Option Text) (line : Int) (raw : Text)

@[simp] theorem diagnose_line : (p.diagnose filename line raw).line = line := rfl
@[simp] theorem diagnose_code : (p.diagnose filename line raw).code = p.code := rfl
@[simp] theorem diagnose_isError : (p.diagnose filename line raw).isError = decide (p.level = .error) := rfl

/-- The problem is found when a body is read, not when a line is. -/
def aboutBody : Problem → Bool
  | .block _ | .unsupportedServiceLine => true
  | _ => false

end Problem

namespace Document

/-- The codes of problems found in bodies. -/
def bodyCodes : List Text := ["E0204", "W0202"]

theorem code_mem_bodyCodes {p : Problem} (h : p.aboutBody = true) : p.code ∈ bodyCodes := by
  cases p with
  | block fault => exact List.mem_cons_self
  | unsupportedServiceLine => exact List.mem_cons_of_mem _ List.mem_cons_self
  | _ => simp [Problem.aboutBody] at h

theorem not_mem_dropCodes_of_mem_bodyCodes {code : Text} (h : code ∈ bodyCodes) : code ∉ dropCodes := by
  rcases List.mem_cons.mp h with rfl | h
  · decide
  · rcases List.mem_cons.mp h with rfl | h
    · decide
    · cases h

/-- The diagnostic is about one of the lines, found when they were read as a body. -/
def FromBody (filename : Option Text) (lines : List BodyLine) (d : Diagnostic) : Prop :=
  ∃ l ∈ lines, ∃ p : Problem, p.aboutBody = true ∧ d = p.diagnose filename l.line l.raw

/-- What a capture reports when it is closed. -/
def Capture.diagnostics (filename : Option Text) (c : Capture) : List Diagnostic :=
  match c.head with
  | .service _ _ => (Reading.readMethods filename c.lines).2
  | .route _ _ _ _ => (Statement.readRouteBody filename c.lines).2.map fun b =>
      (Problem.block b.fault).diagnose filename b.origin.line b.origin.raw
  | _ => []

namespace Reading

variable {filename : Option Text} {t : LineToken} {r : Reading}

/-- The lines that the open capture holds. -/
def heldLines (r : Reading) : List BodyLine := (r.capture.map (·.lines)).getD []

/-! ### Closing a capture -/

theorem readMethods_fromBody (lines : List BodyLine) :
    ∀ d ∈ (readMethods filename lines).2, FromBody filename lines d := by
  induction lines with
  | nil => simp [readMethods]
  | cons l ls ih =>
    have hmono : ∀ d, FromBody filename ls d → FromBody filename (l :: ls) d := by
      rintro d ⟨l', hl', h⟩
      exact ⟨l', List.mem_cons_of_mem _ hl', h⟩
    simp only [readMethods]
    split
    · exact fun d hd => hmono d (ih d hd)
    · split
      · exact fun d hd => hmono d (ih d hd)
      · refine List.forall_mem_cons.mpr ⟨?_, fun d hd => hmono d (ih d hd)⟩
        exact ⟨l, List.mem_cons_self, _, rfl, rfl⟩

theorem cutAtReturn_sublist (lines : List BodyLine) : (Statement.cutAtReturn lines).2.Sublist lines := by
  induction lines with
  | nil => exact .slnil
  | cons l ls ih =>
    simp only [Statement.cutAtReturn]
    split
    · exact List.nil_sublist _
    · split
      · exact List.sublist_cons_self l ls
      · exact ih.cons l

/-- What a capture reports is about the lines that it holds. -/
theorem diagnostics_fromBody (c : Capture) : ∀ d ∈ c.diagnostics filename, FromBody filename c.lines d := by
  unfold Capture.diagnostics
  cases c.head with
  | function name parameters => simp
  | mount => simp
  | service name baseUrl => exact readMethods_fromBody c.lines
  | route verb name path smart =>
    intro d hd
    obtain ⟨b, hb, rfl⟩ := List.mem_map.mp hd
    exact ⟨b.origin, (cutAtReturn_sublist _).mem (Literal.readBlock_reports hb), _, rfl, rfl⟩

theorem declare_diagnostics (c : Capture) (r : Reading) :
    (r.declare filename c).diagnostics = r.diagnostics ++ c.diagnostics filename := by
  unfold declare Capture.diagnostics
  cases c.head <;> simp

/-- What the open capture will report. -/
def pendingReports (filename : Option Text) (r : Reading) : List Diagnostic :=
  r.capture.toList.flatMap (·.diagnostics filename)

theorem closeCapture_diagnostics (filename : Option Text) (r : Reading) :
    (r.closeCapture filename).diagnostics = r.diagnostics ++ r.pendingReports filename := by
  unfold closeCapture pendingReports
  cases r.capture with
  | none => simp
  | some c => simp [declare_diagnostics]

theorem pendingReports_fromBody (filename : Option Text) (r : Reading) :
    ∀ d ∈ r.pendingReports filename, FromBody filename r.heldLines d := by
  unfold pendingReports heldLines
  cases r.capture with
  | none => simp
  | some c => simpa using diagnostics_fromBody c

theorem closeServer_diagnostics : r.closeServer.diagnostics = r.diagnostics := by
  unfold closeServer
  cases r.openServer <;> rfl

theorem settle_diagnostics : (r.settle filename t).diagnostics = (r.closeCapture filename).diagnostics := by
  simp only [settle]
  split
  · rfl
  · exact closeServer_diagnostics

/-! ### Reading a line -/

theorem addTo?_diagnostics {a : Addition} {r' : Reading} (h : a.addTo? filename t r = some r') :
    r'.diagnostics = r.diagnostics := by
  rw [(Addition.addTo?_effect h).frame]

/-- What a line that is neither taken nor a comment reports about itself. -/
def ownProblems (filename : Option Text) (t : LineToken) (r : Reading) : List Problem :=
  (r.settle filename t).warnings t ++
    match Fate.ofLine (r.settle filename t).context t with
    | .dropped p => [p]
    | .added _ => []

theorem step_line_diagnostics (h : r.takes t = false) (hk : t.kind ≠ .comment) :
    (r.step filename t).diagnostics = (r.closeCapture filename).diagnostics ++
      (r.ownProblems filename t).map fun p => p.diagnose filename t.line t.raw := by
  unfold ownProblems
  obtain ⟨p, hf, -, hstep⟩ | ⟨a, hf, -, hstep⟩ := step_outcome filename h hk
  · rw [hstep, hf]
    simp only [report, reportLine, warn, settle_diagnostics, List.map_append, List.append_assoc, List.map_cons,
      List.map_nil]
  · rw [addTo?_diagnostics hstep, hf]
    simp only [warn, settle_diagnostics, List.append_nil]

/-- What a step reports: about lines that the open capture held, and about the line itself. -/
theorem step_diagnostics (filename : Option Text) (r : Reading) (t : LineToken) :
    ∃ closing own, (r.step filename t).diagnostics = r.diagnostics ++ closing ++ own ∧
      (∀ d ∈ closing, FromBody filename r.heldLines d) ∧
      ∀ d ∈ own, ∃ p : Problem, d = p.diagnose filename t.line t.raw := by
  cases h : r.takes t with
  | true =>
    rw [step_takes filename h]
    exact ⟨[], [], by simp [take], by simp, by simp⟩
  | false =>
    have hclose := closeCapture_diagnostics filename r
    have hbody := pendingReports_fromBody filename r
    by_cases hk : t.kind = .comment
    · rw [step_comment filename h hk]
      exact ⟨_, [], by simpa using hclose, hbody, by simp⟩
    · rw [step_line_diagnostics h hk, hclose]
      refine ⟨_, _, rfl, hbody, fun d hd => ?_⟩
      obtain ⟨p, -, rfl⟩ := List.mem_map.mp hd
      exact ⟨p, rfl⟩

/-! ### The lines that are held -/

theorem heldLines_of_none (h : r.capture = none) : r.heldLines = [] := by
  unfold heldLines
  rw [h]
  rfl

theorem heldLines_take (h : r.takes t = true) : (r.take t).heldLines = r.heldLines ++ [t.toBodyLine] := by
  unfold takes at h
  unfold heldLines take
  cases hc : r.capture with
  | none => simp [hc] at h
  | some c => simp

theorem addTo?_heldLines {a : Addition} {r' : Reading} (hc : r.capture = none)
    (h : a.addTo? filename t r = some r') : r'.heldLines = [] := by
  obtain h | ⟨head, h⟩ := (Addition.addTo?_effect h).capture
  · exact heldLines_of_none (h.trans hc)
  · unfold heldLines
    rw [h]
    rfl

/-- After a line that was not taken no line is held. -/
theorem heldLines_step (h : r.takes t = false) : (r.step filename t).heldLines = [] := by
  by_cases hk : t.kind = .comment
  · rw [step_comment filename h hk]
    exact heldLines_of_none closeCapture_capture
  · obtain ⟨p, -, -, hstep⟩ | ⟨a, -, -, hstep⟩ := step_outcome filename h hk
    · rw [hstep]
      exact heldLines_of_none settle_capture
    · exact addTo?_heldLines (warn_capture.trans settle_capture) hstep

theorem fromBody_nil (d : Diagnostic) : ¬ FromBody filename [] d := by
  rintro ⟨l, hl, -⟩
  cases hl

/-! ### Counting over a run -/

section Filter

variable {q : Diagnostic → Bool}

theorem filter_append_of_false {ds es : List Diagnostic} (h : ∀ d ∈ es, q d = false) :
    (ds ++ es).filter q = ds.filter q := by
  have hes : es.filter q = [] := List.filter_eq_nil_iff.mpr fun d hd => by simp [h d hd]
  rw [List.filter_append, hes, List.append_nil]

theorem step_filter (hbody : ∀ d, FromBody filename r.heldLines d → q d = false)
    (hown : ∀ d : Diagnostic, d.line = t.line → q d = false) :
    (r.step filename t).diagnostics.filter q = r.diagnostics.filter q ∧
      ∀ d, FromBody filename (r.step filename t).heldLines d → q d = false := by
  obtain ⟨closing, own, heq, hc, ho⟩ := step_diagnostics filename r t
  have hline : ∀ d ∈ own, d.line = t.line := by
    intro d hd
    obtain ⟨p, rfl⟩ := ho d hd
    rfl
  constructor
  · rw [heq, filter_append_of_false fun d hd => hown d (hline d hd),
      filter_append_of_false fun d hd => hbody d (hc d hd)]
  · intro d hd
    cases h : r.takes t with
    | false =>
      rw [heldLines_step h] at hd
      exact absurd hd (fromBody_nil d)
    | true =>
      rw [step_takes filename h, heldLines_take h] at hd
      obtain ⟨l, hl, p, hp, rfl⟩ := hd
      -- the line that is held now is the new one, or it was held before
      rcases List.mem_append.mp hl with hl | hl
      · exact hbody _ ⟨l, hl, p, hp, rfl⟩
      · obtain rfl := List.mem_singleton.mp hl
        exact hown _ rfl

/-- Steps over lines that `q` does not look at, from a reading that holds no line that `q` looks at, leave what `q`
looks at as it is. -/
theorem foldl_filter (ts : List LineToken) (r : Reading)
    (hbody : ∀ d, FromBody filename r.heldLines d → q d = false)
    (hown : ∀ t ∈ ts, ∀ d : Diagnostic, d.line = (t.line : Int) → q d = false) :
    (ts.foldl (step filename) r).diagnostics.filter q = r.diagnostics.filter q ∧
      ∀ d, FromBody filename (ts.foldl (step filename) r).heldLines d → q d = false := by
  induction ts generalizing r with
  | nil => exact ⟨rfl, hbody⟩
  | cons t ts ih =>
    obtain ⟨ht, hts⟩ := List.forall_mem_cons.mp hown
    obtain ⟨hstep, hheld⟩ := step_filter hbody ht
    obtain ⟨hrun, hrest⟩ := ih (r.step filename t) hheld hts
    exact ⟨hrun.trans hstep, hrest⟩

theorem finish_filter (hbody : ∀ d, FromBody filename r.heldLines d → q d = false) :
    (r.finish filename).diagnostics.filter q = r.diagnostics.filter q := by
  have heq := closeCapture_diagnostics filename r
  have hc := pendingReports_fromBody filename r
  show (r.closeCapture filename).closeServer.diagnostics.filter q = _
  rw [closeServer_diagnostics, heq, filter_append_of_false fun d hd => hbody d (hc d hd)]

/-- The diagnostics of a document that `q` looks at, when it looks at one line only: those that the reading of that
line left. -/
theorem read_filter {source : Text} {before after : List LineToken}
    (h : LineToken.tokenize source = before ++ t :: after)
    (hq : ∀ d : Diagnostic, d.line ≠ t.line → q d = false)
    (hbody : ∀ d, FromBody filename ((run filename before).step filename t).heldLines d → q d = false) :
    (read filename source).diagnostics.filter q =
      ((run filename before).step filename t).diagnostics.filter q := by
  have hafter : ∀ u ∈ after, ∀ d : Diagnostic, d.line = (u.line : Int) → q d = false := by
    intro u hu d hd
    have := (LineToken.line_ne_of_split h).2 u hu
    exact hq d (by omega)
  obtain ⟨hrun, hrest⟩ := foldl_filter after _ hbody hafter
  show ((run filename (LineToken.tokenize source)).finish filename).diagnostics.filter q = _
  rw [h, run_append, List.foldl_cons, finish_filter hrest, hrun]

end Filter

end Reading

end Document

end Trellis
