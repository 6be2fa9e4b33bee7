import Trellis.Proofs.Notices

/-!
# Where carets stand

A diagnostic and a strict failure both print a source line and carets below it (`Marking`).  A diagnostic prints the line
as it is written, behind a gutter that is wider than the one before the carets, so the carets are as many as the
characters of the trimmed line but start to the left of it (`diagnose_shownIn`).  A strict failure prints the trimmed
line, while its caret stands where the text starts in the source, so it stands to the right of the first character by
the indent of the line (`strictFailure_shownIn`).
-/

namespace Trellis

/-! ### Marked lines -/

/-- A source line as it is printed behind a margin, with a run of carets below it.  Columns count from zero. -/
structure Marking where
  margin : Text
  line : Text
  column : Nat
  count : Nat

namespace Marking

/-- The column of the first character of the source line that is not blank. -/
def textColumn (m : Marking) : Nat := m.margin.length + indentOf m.line

/-- Two neighbouring lines of the text are the source line behind its margin, and the carets, before which no other caret
stands. -/
def ShownIn (text : Text) (m : Marking) : Prop :=
  ∃ above lead below,
    text = Text.unlines (above ++ (m.margin ++ m.line) :: (lead ++ List.replicate m.count '^') :: below) ∧
      lead.length = m.column ∧ '^' ∉ lead

end Marking

theorem caret_not_mem_spaces (n : Nat) : '^' ∉ Text.spaces n := by
  intro h
  exact absurd (List.eq_of_mem_replicate h) (by decide)

/-! ### Diagnostics -/

theorem length_gutter (n : Nat) : (gutter n).length = max 3 (Text.ofNat n).length := by
  have hlength : (gutter n).length = 3 - (Text.ofNat n).length + (Text.ofNat n).length := by
    unfold gutter Text.spaces
    rw [List.length_append, List.length_replicate]
    rfl
  omega

theorem paint_false (code : Text) : paint false code = [] := rfl

namespace Diagnostic

/-- The lines of a diagnostic that has one span, on a line of the source. -/
theorem renderLines_plain {source : Text} {d : Diagnostic} {s : Span} (hspans : d.spans = [s]) {n : Nat} {raw : Text}
    (hline : s.line = n + 1) (hraw : (Text.lines source)[n]? = some raw) :
    renderLines source false d =
      [renderHead false d, "  --> " ++ s.toText, "   |"] ++ (gutter (n + 1 : Nat) ++ " | " ++ raw) ::
        ("   | " ++ Text.spaces (s.startCol - 1).toNat ++ List.replicate s.length.toNat '^') ::
          "   |" :: d.helps.map (renderHelp false) := by
  have hlt : n < (Text.lines source).length := (List.getElem?_eq_some_iff.mp hraw).1
  have hlines : (Text.lines source).isEmpty = false := List.isEmpty_eq_false_iff.mpr (List.ne_nil_of_length_pos (by omega))
  have hspan : d.span? = some s := by rw [span?, hspans, List.head?_cons]
  have hget : (Text.lines source).getD n [] = raw := by rw [List.getD_eq_getElem?_getD, hraw, Option.getD_some]
  have hnumber : s.line = ((n + 1 : Nat) : Int) := by omega
  have hindex : (((n + 1 : Nat) : Int) - 1).toNat = n := by omega
  -- the span is on a line of the source, so the line is shown
  have hinside : (1 ≤ ((n + 1 : Nat) : Int) && ((n + 1 : Nat) : Int) ≤ (Text.lines source).length) = true := by
    simp only [Bool.and_eq_true, decide_eq_true_eq]
    omega
  have hshown : renderSpan false d.level (Text.lines source) s = [gutter (n + 1 : Nat) ++ " | " ++ raw,
      "   | " ++ Text.spaces (s.startCol - 1).toNat ++ List.replicate s.length.toNat '^'] := by
    unfold renderSpan
    rw [hnumber, if_pos hinside]
    simp only [hindex, hget, paint_false, List.nil_append, List.append_nil, List.append_assoc]
    rfl
  unfold renderLines
  simp only [hspan, hspans, hlines, List.mergeSort_singleton, List.flatMap_singleton, hshown]
  rfl

end Diagnostic

/-- **The carets of a diagnostic** about a line that is not blank are as many as the characters of the trimmed line, and
start one column before it, or more when the number of the line has more than three digits. -/
theorem diagnose_shownIn (p : Problem) (filename : Option Text) {source : Text} {n : Nat} {raw : Text}
    (hraw : (Text.lines source)[n]? = some raw) (hne : Text.trim raw ≠ []) :
    ∃ m : Marking, m.ShownIn ((p.diagnose filename ((n + 1 : Nat) : Int) raw).render source false) ∧ m.line = raw ∧
      m.count = (Text.trim raw).length ∧ m.textColumn = m.column + max 1 ((Text.ofNat (n + 1)).length - 2) := by
  have hspan := Span.ofLine_eq ((n + 1 : Nat) : Int) hne filename
  have hstart : ((Span.ofLine ((n + 1 : Nat) : Int) raw filename).startCol - 1).toNat = indentOf raw := by
    rw [hspan]
    simp only
    omega
  have hcount : (Span.ofLine ((n + 1 : Nat) : Int) raw filename).length.toNat = (Text.trim raw).length := by
    have hpos : 0 < (Text.trim raw).length := List.length_pos_iff.mpr hne
    rw [hspan, Span.length]
    simp only
    omega
  have hlines := Diagnostic.renderLines_plain (d := p.diagnose filename ((n + 1 : Nat) : Int) raw) rfl
    (Int.natCast_succ n) hraw
  rw [hstart, hcount] at hlines
  refine ⟨⟨gutter (n + 1 : Nat) ++ " | ", raw, 5 + indentOf raw, (Text.trim raw).length⟩, ?_, rfl, rfl, ?_⟩
  · -- the row of carets: the bar, the indent, and no caret among them
    refine ⟨_, "   | " ++ Text.spaces (indentOf raw), _, congrArg Text.unlines hlines, ?_, ?_⟩
    · rw [List.length_append, Text.spaces, List.length_replicate]
      rfl
    · rw [List.mem_append, not_or]
      exact ⟨by decide, caret_not_mem_spaces _⟩
  · -- the gutter is as wide as the number, but at least three characters
    have hmargin : ((" | " : Text)).length = 3 := rfl
    simp only [Marking.textColumn, List.length_append, length_gutter, hmargin]
    omega

/-! ### Strict failures -/

/-- The text of a failure at a column of a source line. -/
theorem toText_of_sourceLine {f : Failure} {l : Location} {line : Text} (hlocation : f.location = some l)
    (hline : f.sourceLine = some line) (hne : line ≠ []) :
    f.toText = Text.unlines ["[" ++ l.toText ++ "] " ++ f.message, "    " ++ line,
      Text.spaces (4 + l.column - 1).toNat ++ ['^']] := by
  unfold Failure.toText
  rw [hlocation, hline]
  cases line with
  | nil => exact absurd rfl hne
  | cons c line => simp [Text.unlines, Text.join, List.intercalate]

theorem indentOf_trim (raw : Text) : indentOf (Text.trim raw) = 0 := by
  rw [indentOf, Text.trimStart_eq_self Text.head?_trim, Nat.sub_self]

/-- A strict failure tells of the first error of the document, at the start of the line that it is about. -/
theorem strictFailure_line {filename path : Option Text} {source : Text} {f : Failure}
    (h : Document.strictFailure? path (Document.read filename source).diagnostics = some f) :
    ∃ (n : Nat) (raw : Text), (Text.lines source)[n]? = some raw ∧ Text.trim raw ≠ [] ∧
      f.location = some ⟨(n + 1 : Nat), indentOf raw + 1, path⟩ ∧ f.sourceLine = some (Text.trim raw) := by
  unfold Document.strictFailure? at h
  cases herrors : Diagnostic.errors (Document.read filename source).diagnostics with
  | nil =>
    rw [herrors] at h
    cases h
  | cons first rest =>
    rw [herrors] at h
    obtain rfl := Option.some.inj h
    have hfirst : first ∈ Diagnostic.errors (Document.read filename source).diagnostics :=
      herrors ▸ List.mem_cons_self
    obtain ⟨t, ht, p, rfl⟩ := Document.mem_diagnostics_read (List.mem_filter.mp hfirst).1
    obtain ⟨n, hline, hn, hblank⟩ := LineToken.exists_line_of_mem_tokenize ht
    have hne := Editor.trim_ne_nil_of_not_blank hblank
    refine ⟨n, t.raw, hn, hne, ?_, if_neg ?_⟩
    · show some (Location.mk t.line (Span.ofLine t.line t.raw filename).startCol path) = _
      rw [hline, Span.ofLine_eq _ hne]
    · rw [List.isEmpty_iff]
      exact hne

/-- **The caret of a strict failure** stands to the right of the first character of the printed line, by the indent of
that line in the source. -/
theorem strictFailure_shownIn {filename path : Option Text} {source : Text} {f : Failure}
    (h : Document.strictFailure? path (Document.read filename source).diagnostics = some f) :
    ∃ (n : Nat) (raw : Text) (m : Marking), (Text.lines source)[n]? = some raw ∧ Text.trim raw ≠ [] ∧
      f.location = some ⟨(n + 1 : Nat), indentOf raw + 1, path⟩ ∧
        m.ShownIn f.toText ∧ m.line = Text.trim raw ∧ m.count = 1 ∧ m.column = m.textColumn + indentOf raw := by
  obtain ⟨n, raw, hn, hne, hlocation, hsource⟩ := strictFailure_line h
  have hcolumn : (4 + ((indentOf raw : Int) + 1) - 1).toNat = 4 + indentOf raw := by omega
  have htext := toText_of_sourceLine hlocation hsource hne
  rw [hcolumn] at htext
  refine ⟨n, raw, ⟨"    ", Text.trim raw, 4 + indentOf raw, 1⟩, hn, hne, hlocation, ?_, rfl, rfl, ?_⟩
  · exact ⟨[_], Text.spaces (4 + indentOf raw), [], htext, List.length_replicate, caret_not_mem_spaces _⟩
  · rw [Marking.textColumn, indentOf_trim]
    rfl

/-- The failure of a strict compilation that is one of the parser. -/
theorem strictFailure_of_compile {path : Option Text} {d : Document} {c : Compilation} {f : Failure}
    (h : d.compile path true = .ok c) (hf : c.error = some f) (hkind : f.kind = .parser) :
    Document.strictFailure? path d.diagnostics = some f := by
  by_cases hrefused : d.Refused true
  · unfold Document.compile at h
    simp only [if_true] at h
    cases hstrict : Document.strictFailure? path d.diagnostics with
    | none => exact absurd ((Document.strictFailure?_eq_none_iff path _).mp hstrict) hrefused.2
    | some g =>
      rw [hstrict] at h
      obtain rfl := Except.ok.inj h
      exact hf
  · obtain ⟨-, ⟨output, -, hnone⟩ | ⟨g, hgen, hsome⟩⟩ := Document.result_of_not_refused hrefused h
    · rw [hnone] at hf
      cases hf
    · obtain rfl := Option.some.inj (hsome.symm.trans hf)
      rw [Document.generate_failure_kind hgen] at hkind
      cases hkind

/-! ### Carets -/

/-- **Where carets stand.**  Every diagnostic of a source is printed with the source line that it is about and with as
many carets below it as the trimmed line has characters; they start one column to the left of it, or more when the
number of the line has more than three digits.  A strict failure of the parser is printed with the trimmed line that
it is about and with one caret below it; it stands under the first character exactly when the line is not indented, and
else to the right of it, by the indent. -/
theorem carets_offset (filename : Option Text) (source : Text) :
    (∀ d ∈ (Document.read filename source).diagnostics, ∃ (n : Nat) (raw : Text) (m : Marking),
      (Text.lines source)[n]? = some raw ∧ Text.trim raw = d.text ∧ d.text ≠ [] ∧ d.line = n + 1 ∧
        m.ShownIn (d.render source false) ∧ m.line = raw ∧ m.count = d.text.length ∧
          m.textColumn = m.column + max 1 ((Text.ofNat (n + 1)).length - 2)) ∧
      ∀ c f, compile filename true source = .ok c → c.error = some f → f.kind = .parser →
        ∃ (n : Nat) (raw : Text) (m : Marking), (Text.lines source)[n]? = some raw ∧ Text.trim raw ≠ [] ∧
          f.location = some ⟨(n + 1 : Nat), indentOf raw + 1, filename⟩ ∧
            m.ShownIn f.toText ∧ m.line = Text.trim raw ∧ m.count = 1 ∧ m.column = m.textColumn + indentOf raw := by
  constructor
  · intro d hd
    obtain ⟨t, ht, p, rfl⟩ := Document.mem_diagnostics_read hd
    obtain ⟨n, hline, hn, hblank⟩ := LineToken.exists_line_of_mem_tokenize ht
    have hne := Editor.trim_ne_nil_of_not_blank hblank
    obtain ⟨m, hshown, hm⟩ := diagnose_shownIn p filename hn hne
    rw [hline]
    exact ⟨n, t.raw, m, hn, rfl, hne, rfl, hshown, hm⟩
  · intro c f hcompile hf hkind
    exact strictFailure_shownIn (strictFailure_of_compile hcompile hf hkind)

/-- A line that is no line of the language, indented by four columns. -/
theorem carets_offset_indented :
    (∃ d ∈ (Document.read none "VBox\n    bogus").diagnostics, ∃ m : Marking,
      m.ShownIn (d.render "VBox\n    bogus" false) ∧ m.count = 5 ∧ m.textColumn = m.column + 1) ∧
      ∃ c f, compile none true "VBox\n    bogus" = .ok c ∧ c.error = some f ∧ f.kind = .parser ∧
        ∃ m : Marking, m.ShownIn f.toText ∧ m.column = m.textColumn + 4 := by
  obtain ⟨hdiagnostics, hfailures⟩ := carets_offset none "VBox\n    bogus"
  have hreported : (Document.read none "VBox\n    bogus").diagnostics.map (fun d => (d.line, d.text)) =
      [((2 : Int), ("bogus" : Text))] := by decide +kernel
  have hfailed : (compile none true "VBox\n    bogus").toOption.bind (fun c => c.error.map fun f => (f.kind, f.location)) =
      some (.parser, some ⟨2, 5, none⟩) := by decide +kernel
  constructor
  · -- the only diagnostic is about the second line
    obtain ⟨d, hsingle, hd⟩ := List.map_eq_singleton_iff.mp hreported
    obtain ⟨hline, htext⟩ := Prod.mk.inj hd
    have hmem : d ∈ (Document.read none "VBox\n    bogus").diagnostics := hsingle ▸ List.mem_singleton_self d
    obtain ⟨n, raw, m, -, -, -, hnumber, hshown, -, hcount, hcolumn⟩ := hdiagnostics d hmem
    have hn : n = 1 := by omega
    subst hn
    rw [htext] at hcount
    exact ⟨d, hmem, m, hshown, hcount, hcolumn⟩
  · -- the failure is at column 5, so the indent is 4
    obtain ⟨c, hc, hbind⟩ := Option.bind_eq_some_iff.mp hfailed
    obtain ⟨f, hf, hpair⟩ := Option.map_eq_some_iff.mp hbind
    obtain ⟨hkind, hlocation⟩ := Prod.mk.inj hpair
    have hcompile : compile none true "VBox\n    bogus" = .ok c := by
      cases h : compile none true "VBox\n    bogus" with
      | error fault =>
        rw [h] at hc
        cases hc
      | ok c' =>
        rw [h] at hc
        rw [Option.some.inj hc]
    obtain ⟨n, raw, m, -, -, hplace, hshown, -, -, hcolumn⟩ := hfailures c f hcompile hf hkind
    have hindent : (indentOf raw : Int) + 1 = 5 :=
      (Location.mk.inj (Option.some.inj (hplace.symm.trans hlocation))).2.1
    have hfour : indentOf raw = 4 := by omega
    rw [hfour] at hcolumn
    exact ⟨c, f, hcompile, hf, hkind, m, hshown, hcolumn⟩

/-- Carets that start one column before the text that they are for, and a caret under the fifth character of its line in
place of the first. -/
theorem carets_beside_text :
    (∃ text, (Document.read (some "App.ygg") "\n\nstate = 5").diagnostics.map (·.render "\n\nstate = 5" false) = [text] ∧
        Marking.ShownIn text ⟨"  3 | ", "state = 5", 5, 9⟩) ∧
      Marking.textColumn ⟨"  3 | ", "state = 5", 5, 9⟩ = 6 ∧
      (∃ text, (compile none true "VBox\n    bogus").toOption.bind (·.error.map Failure.toText) = some text ∧
        Marking.ShownIn text ⟨"    ", "bogus", 8, 1⟩) ∧
      Marking.textColumn ⟨"    ", "bogus", 8, 1⟩ = 4 := by
  have hdiagnostic : (Document.read (some "App.ygg") "\n\nstate = 5").diagnostics.map (·.render "\n\nstate = 5" false) =
      [Text.unlines ((["error[E0202]: malformed state declaration", "  --> App.ygg:3:1", "   |"] : List Text) ++
        (("  3 | " : Text) ++ "state = 5") :: (("   | " : Text) ++ List.replicate 9 '^') ::
          (["   |", "   = help: expected 'state [type] name = value'"] : List Text))] := by decide +kernel
  have hfailure : (compile none true "VBox\n    bogus").toOption.bind (·.error.map Failure.toText) =
      some (Text.unlines ((["[2:5] unrecognised line (1 error(s) in total)"] : List Text) ++
        (("    " : Text) ++ "bogus") :: (("        " : Text) ++ List.replicate 1 '^') :: [])) := by decide +kernel
  exact ⟨⟨_, hdiagnostic, _, _, _, rfl, rfl, by decide⟩, rfl, ⟨_, hfailure, _, _, _, rfl, rfl, by decide⟩, rfl⟩

end Trellis
