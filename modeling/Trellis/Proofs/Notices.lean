import Trellis.Editor.Range
import Trellis.Proofs.Composition
import Trellis.Proofs.Extents
import Trellis.Proofs.Outcome
import Trellis.Proofs.Trimming

/-!
# What an editor underlines

Every diagnostic of a document is about one line of its source, whichever part of the reader reported it: about the line
that was read, or about a line of a body, when the body was closed (`mem_diagnostics_read`).  A failure of the generator
is located at a line too (`generate_failure_location`).  Spans, locations and editor ranges of a line all come from its
indent and its trimmed text (`rangeOf_diagnose`, `range_ofFailure`), so a notice underlines that text and nothing else.
-/

namespace Trellis

/-! ### Where diagnostics come from -/

namespace Document

/-- The diagnostic is about one of the lines. -/
def About (filename : Option Text) (ts : List LineToken) (d : Diagnostic) : Prop :=
  ∃ t ∈ ts, ∃ p : Problem, d = p.diagnose filename t.line t.raw

namespace Reading

variable {filename : Option Text} {r : Reading} {ts : List LineToken} {t : LineToken}

/-- The reading reports about lines that were read, and the lines it holds for a body were read. -/
structure Reported (filename : Option Text) (ts : List LineToken) (r : Reading) : Prop where
  about : ∀ d ∈ r.diagnostics, About filename ts d
  held : ∀ l ∈ r.heldLines, ∃ t ∈ ts, l = t.toBodyLine

/-- What is found in the body that is held is about lines that were read. -/
theorem Reported.about_body (h : Reported filename ts r) {d : Diagnostic} (hd : FromBody filename r.heldLines d) :
    About filename ts d := by
  obtain ⟨l, hl, p, -, rfl⟩ := hd
  obtain ⟨t, ht, rfl⟩ := h.held l hl
  exact ⟨t, ht, p, rfl⟩

theorem Reported.step (h : Reported filename ts r) (t : LineToken) :
    Reported filename (ts ++ [t]) (r.step filename t) := by
  have hmono : ∀ d, About filename ts d → About filename (ts ++ [t]) d := by
    rintro d ⟨u, hu, hd⟩
    exact ⟨u, List.mem_append_left _ hu, hd⟩
  have hnew : t ∈ ts ++ [t] := List.mem_append_right _ List.mem_cons_self
  constructor
  · -- what was reported, what the closed capture reports, and what is about the new line
    obtain ⟨closing, own, heq, hclosing, hown⟩ := step_diagnostics filename r t
    rw [heq]
    intro d hd
    rcases List.mem_append.mp hd with hd | hd
    · rcases List.mem_append.mp hd with hd | hd
      · exact hmono d (h.about d hd)
      · exact hmono d (h.about_body (hclosing d hd))
    · exact ⟨t, hnew, hown d hd⟩
  · intro l hl
    cases htakes : r.takes t with
    | false =>
      -- the capture is closed, and nothing is held
      rw [heldLines_step htakes] at hl
      cases hl
    | true =>
      rw [step_takes filename htakes, heldLines_take htakes] at hl
      rcases List.mem_append.mp hl with hl | hl
      · obtain ⟨u, hu, rfl⟩ := h.held l hl
        exact ⟨u, List.mem_append_left _ hu, rfl⟩
      · exact ⟨t, hnew, List.mem_singleton.mp hl⟩

theorem Reported.foldl (h : Reported filename ts r) (us : List LineToken) :
    Reported filename (ts ++ us) (us.foldl (Reading.step filename) r) := by
  induction us generalizing ts r with
  | nil => simpa using h
  | cons u us ih =>
    have hrun := ih (h.step u)
    rwa [List.append_assoc] at hrun

theorem Reported.finish (h : Reported filename ts r) :
    ∀ d ∈ (r.finish filename).diagnostics, About filename ts d := by
  intro d hd
  rw [finish_diagnostics] at hd
  rcases List.mem_append.mp hd with hd | hd
  · exact h.about d hd
  · exact h.about_body (pendingReports_fromBody filename r d hd)

end Reading

/-- **Every diagnostic is about a line of the source** that is not blank. -/
theorem mem_diagnostics_read {filename : Option Text} {source : Text} {d : Diagnostic}
    (h : d ∈ (read filename source).diagnostics) : About filename (LineToken.tokenize source) d := by
  have hstart : Reading.Reported filename [] {} := ⟨nofun, nofun⟩
  exact (hstart.foldl (LineToken.tokenize source)).finish d h

/-! ### Where the generator fails -/

theorem repeatedRoute?_mem {routes : List Route} {r : Route} (seen : List (Verb × Text))
    (h : ServerModule.repeatedRoute? seen routes = some r) : r ∈ routes := by
  induction routes generalizing seen with
  | nil => cases h
  | cons x xs ih =>
    unfold ServerModule.repeatedRoute? at h
    split at h
    · obtain rfl := Option.some.inj h
      exact List.mem_cons_self
    · exact List.mem_cons_of_mem x (ih _ h)

theorem portOf_failure_location {s : Server} {f : Failure} (h : ServerModule.portOf s = .error (.failed f)) :
    f.location = some s.location := by
  unfold ServerModule.portOf at h
  cases hp : Port.derive s.port with
  | ok p =>
    rw [hp] at h
    cases h
  | error g =>
    rw [hp] at h
    cases g <;> cases h <;> rfl

/-- A failure of the generator is located at the server or at one of its routes. -/
theorem generate_failure_location {path : Option Text} {d : Document} {f : Failure}
    (h : d.generate path = .error (.failed f)) : ∃ l ∈ d.places, f.location = some l := by
  cases hs : d.script.server with
  | none =>
    rw [generate_component hs] at h
    cases h
  | some s =>
    have hmem : s ∈ d.script.server.toList := Option.mem_toList.mpr hs
    rw [generate_server hs] at h
    cases hp : ServerModule.portOf s with
    | error e =>
      -- a port that is refused is located at the server
      rw [hp] at h
      obtain rfl : e = .failed f := Except.error.inj h
      refine ⟨s.location, List.mem_append_left _ ?_, portOf_failure_location hp⟩
      exact List.mem_append_right _ (List.mem_map_of_mem hmem)
    | ok port =>
      rw [hp] at h
      cases hr : ServerModule.repeatedRoute? [] s.routes with
      | none =>
        rw [hr] at h
        cases h
      | some r =>
        -- a repeated route is located at its own line
        rw [hr] at h
        obtain rfl : ServerModule.repeatedFailure r = f := GenerateError.failed.inj (Except.error.inj h)
        refine ⟨r.location, List.mem_append_right _ (List.mem_flatMap.mpr ⟨s, hmem, ?_⟩), rfl⟩
        exact List.mem_append_right _ (List.mem_map_of_mem (repeatedRoute?_mem [] hr))

/-- A failure of the generator is located at a line of the source. -/
theorem generate_failure_line {path filename : Option Text} {source : Text} {f : Failure}
    (h : (read filename source).generate path = .error (.failed f)) :
    ∃ t ∈ LineToken.tokenize source, f.location = some (Reading.locate filename t) := by
  obtain ⟨l, hl, hf⟩ := generate_failure_location h
  obtain ⟨k, hk, rfl⟩ := mem_places (LineToken.pairwise_tokenize source) hl
  exact ⟨k.line, line_mem hk, hf⟩

end Document

/-! ### Ranges -/

namespace Editor

/-- The range lies on one of the lines, and its characters are that line without the blanks around it. -/
structure Range.Covers (lines : List Text) (r : Range) (text : Text) : Prop where
  slice : ∃ (n start stop : Nat) (line : Text), r = ⟨n, start, stop⟩ ∧ lines[n]? = some line ∧
    start ≤ stop ∧ stop ≤ line.length ∧ (line.take stop).drop start = text ∧ Text.trim line = text
  notEmpty : text ≠ []

/-- The range of the trimmed text of the line `raw`, which is line `n`. -/
def Range.ofLine (n : Nat) (raw : Text) : Range := ⟨n, indentOf raw, indentOf raw + (Text.trim raw).length⟩

theorem Range.covers_ofLine {lines : List Text} {n : Nat} {raw : Text} (hn : lines[n]? = some raw)
    (hraw : Text.trim raw ≠ []) : (Range.ofLine n raw).Covers lines (Text.trim raw) := by
  refine ⟨⟨n, indentOf raw, indentOf raw + (Text.trim raw).length, raw, ?_, hn, by omega, ?_, ?_, rfl⟩, hraw⟩
  · unfold Range.ofLine
    rw [Int.natCast_add]
  · obtain ⟨lead, tail, -, -, hcut, hindent⟩ := Text.exists_blanks raw
    have hlength := congrArg List.length hcut
    rw [List.length_append, List.length_append] at hlength
    omega
  · rw [List.drop_take, Nat.add_sub_cancel_left, Text.take_drop_trim]

variable {lines : List Text} {n : Nat} {raw : Text}

/-- The range of a diagnostic about a line. -/
theorem rangeOf_diagnose (lines : List Text) (p : Problem) (filename : Option Text) (hraw : Text.trim raw ≠ []) :
    rangeOf lines (p.diagnose filename ((n + 1 : Nat) : Int) raw) = Range.ofLine n raw := by
  have hspan : (p.diagnose filename ((n + 1 : Nat) : Int) raw).span? = some (Span.ofLine (n + 1 : Nat) raw filename) := rfl
  unfold rangeOf Range.between Range.ofLine
  rw [hspan, Span.ofLine_eq _ hraw]
  simp only [Range.mk.injEq]
  omega

/-- The range of a failure at the first character of a line. -/
theorem range_ofFailure (message : Text) (filename : Option Text) (hn : lines[n]? = some raw)
    (hraw : Text.trim raw ≠ []) :
    (Notice.ofFailure lines message (some ⟨(n + 1 : Nat), indentOf raw + 1, filename⟩)).range = Range.ofLine n raw := by
  have hpos : 0 < (Text.trim raw).length := List.length_pos_iff.mpr hraw
  have hline : max 0 (((n + 1 : Nat) : Int) - 1) = n := by omega
  have hstart : max 0 ((indentOf raw : Int) + 1 - 1) = indentOf raw := by omega
  have hget : lines.getD n [] = raw := by rw [List.getD_eq_getElem?_getD, hn, Option.getD_some]
  unfold Notice.ofFailure
  simp only [hline, hstart]
  unfold Range.toLineEnd Range.between Range.ofLine
  simp only [Int.natCast_nonneg, if_true, Int.toNat_natCast, hget, Text.length_trimEnd hraw, Range.mk.injEq, true_and]
  omega

/-! ### Notices -/

/-- The notice shows the diagnostic: its message with the helps, its level and code, and the text it is about. -/
structure Notice.Shows (lines : List Text) (d : Diagnostic) (x : Notice) : Prop where
  message : x.message = messageOf d
  level : x.level = d.level
  code : x.code = some d.code
  range : x.range.Covers lines d.text

/-- The notice shows the failure, at a line that is not blank. -/
structure Notice.ShowsFailure (lines : List Text) (f : Failure) (x : Notice) : Prop where
  message : x.message = f.message
  level : x.level = .error
  range : ∃ text, x.range.Covers lines text

theorem trim_ne_nil_of_not_blank (h : Text.isBlankText raw = false) : Text.trim raw ≠ [] := by
  intro hnil
  have hblank : Text.isBlankText raw = true := List.all_eq_true.mpr (Text.trim_eq_nil_iff.mp hnil)
  rw [hblank] at h
  cases h

theorem shows_ofDiagnostic {filename : Option Text} {source : Text} {d : Diagnostic}
    (h : d ∈ (Document.read filename source).diagnostics) :
    (Notice.ofDiagnostic (Text.lines source) d).Shows (Text.lines source) d := by
  obtain ⟨t, ht, p, rfl⟩ := Document.mem_diagnostics_read h
  obtain ⟨n, hline, hn, hblank⟩ := LineToken.exists_line_of_mem_tokenize ht
  have hraw := trim_ne_nil_of_not_blank hblank
  have hcovers := Range.covers_ofLine hn hraw
  rw [← rangeOf_diagnose (Text.lines source) p filename hraw] at hcovers
  rw [hline]
  exact ⟨rfl, rfl, rfl, hcovers⟩

theorem showsFailure_ofFailure {path filename : Option Text} {source : Text} {f : Failure}
    (h : (Document.read filename source).generate path = .error (.failed f)) :
    (Notice.ofFailure (Text.lines source) f.message f.location).ShowsFailure (Text.lines source) f := by
  obtain ⟨t, ht, hf⟩ := Document.generate_failure_line h
  obtain ⟨n, hline, hn, hblank⟩ := LineToken.exists_line_of_mem_tokenize ht
  have hraw := trim_ne_nil_of_not_blank hblank
  have hindent : t.indent = indentOf t.raw := by
    rw [LineToken.eq_classify_of_mem ht, LineToken.classify_indent, LineToken.classify_raw]
  refine ⟨rfl, rfl, Text.trim t.raw, ?_⟩
  rw [hf, Document.Reading.locate, hline, hindent, range_ofFailure _ _ hn hraw]
  exact Range.covers_ofLine hn hraw

/-- **Editor ranges are the text of the reported line.**  Where compilation returns, an editor gets one notice for every
diagnostic of the document, in order, and behind them one error exactly when the generator fails.  Each notice lies on
one line of the source and covers that line without the blanks around it, which is not empty; for a diagnostic this is
the text that the diagnostic carries. -/
theorem notices_cover {uri source : Text} {c : Compilation} (h : compile (some uri) false source = .ok c) :
    ∃ reported, List.Forall₂ (fun d x => x.Shows (Text.lines source) d)
        (Document.read (some uri) source).diagnostics reported ∧
      ((∃ output, (Document.read (some uri) source).generate (some uri) = .ok output ∧ c.success = true ∧
          notices uri source = .ok reported) ∨
        ∃ f x, (Document.read (some uri) source).generate (some uri) = .error (.failed f) ∧ c.success = false ∧
          Notice.ShowsFailure (Text.lines source) f x ∧ notices uri source = .ok (reported ++ [x])) := by
  have hnotices : notices uri source = .ok (c.diagnostics.map (Notice.ofDiagnostic (Text.lines source)) ++
      c.error.toList.map fun f => Notice.ofFailure (Text.lines source) f.message f.location) := by
    unfold notices
    rw [h]
    rfl
  obtain ⟨hds, hend⟩ := Document.result_of_not_refused (Document.not_refused_lenient _) h
  rw [hds] at hnotices
  refine ⟨(Document.read (some uri) source).diagnostics.map (Notice.ofDiagnostic (Text.lines source)), ?_, ?_⟩
  · exact List.forall₂_map_right_iff.mpr (List.forall₂_same.mpr fun d hd => shows_ofDiagnostic hd)
  · obtain ⟨output, hgen, herror⟩ | ⟨f, hgen, herror⟩ := hend
    · -- the generator gives an output
      rw [herror, Option.toList_none, List.map_nil, List.append_nil] at hnotices
      have hsuccess : c.success = true := by rw [Compilation.success, herror, Option.isNone_none]
      exact .inl ⟨output, hgen, hsuccess, hnotices⟩
    · -- the generator fails, and its failure is the last notice
      rw [herror, Option.toList_some, List.map_singleton] at hnotices
      have hfailed : c.success = false := by rw [Compilation.success, herror, Option.isNone_some]
      exact .inr ⟨f, _, hgen, hfailed, showsFailure_ofFailure hgen, hnotices⟩

/-- A state that is not well formed, a stray bracket in the body of a route, and a server whose port is too high. -/
theorem notices_cover_port :
    ∃ reported x, notices "a" "  state = 5\t\nserver A: 70000 \n  get h /h\n    return\n      ] " =
        .ok (reported ++ [x]) ∧ reported.length = 2 ∧ x.level = .error ∧
      ∃ text, x.range.Covers (Text.lines "  state = 5\t\nserver A: 70000 \n  get h /h\n    return\n      ] ") text := by
  have hcount : (Document.read (some "a")
      "  state = 5\t\nserver A: 70000 \n  get h /h\n    return\n      ] ").diagnostics.length = 2 := by decide +kernel
  have hfailed : (compile (some "a") false
      "  state = 5\t\nserver A: 70000 \n  get h /h\n    return\n      ] ").toOption.map (·.success) =
        some false := by decide +kernel
  cases hc : compile (some "a") false "  state = 5\t\nserver A: 70000 \n  get h /h\n    return\n      ] " with
  | error fault =>
    rw [hc] at hfailed
    cases hfailed
  | ok c =>
    rw [hc] at hfailed
    have hsuccess : c.success = false := Option.some.inj hfailed
    obtain ⟨reported, hreported, ⟨-, -, htrue, -⟩ | ⟨f, x, -, -, hx, hnotices⟩⟩ := notices_cover hc
    · exact absurd (hsuccess.symm.trans htrue) Bool.false_ne_true
    · exact ⟨reported, x, hnotices, hreported.length_eq.symm.trans hcount, hx.level, hx.range⟩

end Editor

end Trellis
