import Trellis.Proofs.Simulation
import Trellis.Proofs.Tokens

/-!
# Only the order of indents matters

Two sources have the same layout when their non-blank lines, trimmed, are the same and their indents are in the same
order.  Blank lines, trailing blanks and the widths of the indents may differ.  Such sources compile to the same
result, up to line numbers and columns (`compile_sameLayout`).
-/

namespace Trellis

/-! ### Results without line numbers and columns -/

/-- The location without line and column. -/
def Location.unplaced (l : Location) : Location := { l with line := 0, column := 0 }

/-- The span without line and columns. -/
def Span.unplaced (s : Span) : Span := { s with line := 0, startCol := 0, endCol := 0 }

/-- The diagnostic without line numbers and columns. -/
def Diagnostic.unplaced (d : Diagnostic) : Diagnostic := { d with spans := d.spans.map Span.unplaced }

/-- Everything without line numbers and columns; of body lines nothing is left. -/
def unplacing : View := { line := fun _ => ⟨0, 0, []⟩, place := Location.unplaced, report := Diagnostic.unplaced }

/-- The result without line numbers and columns. -/
def Compilation.unplaced (c : Compilation) : Compilation :=
  { c with diagnostics := c.diagnostics.map Diagnostic.unplaced, error := c.error.map unplacing.failure }

namespace Document

theorem errors_unplaced (ds : List Diagnostic) :
    Diagnostic.errors (ds.map Diagnostic.unplaced) = (Diagnostic.errors ds).map Diagnostic.unplaced :=
  List.filter_map

theorem strictFailure?_unplaced (path : Option Text) (ds : List Diagnostic) :
    (strictFailure? path (ds.map Diagnostic.unplaced)).map unplacing.failure =
      (strictFailure? path ds).map unplacing.failure := by
  unfold strictFailure?
  rw [errors_unplaced]
  cases Diagnostic.errors ds with
  | nil => rfl
  | cons first rest =>
    have hlocation : ∀ spans : List Span,
        ((spans.map Span.unplaced).head?.map fun s => (⟨s.line, s.startCol, path⟩ : Location)).map Location.unplaced =
          (spans.head?.map fun s => (⟨s.line, s.startCol, path⟩ : Location)).map Location.unplaced := by
      intro spans
      cases spans <;> rfl
    simp only [List.map_cons, Option.map_some, List.length_map]
    simp only [View.failure, unplacing, Diagnostic.span?, Diagnostic.unplaced, hlocation]
    rfl

theorem failure_unplaced (f : Failure) : unplacing.failure (unplacing.failure f) = unplacing.failure f := by
  simp only [View.failure, Option.map_map]
  rfl

theorem diagnostics_unplaced (ds : List Diagnostic) :
    (ds.map Diagnostic.unplaced).map Diagnostic.unplaced = ds.map Diagnostic.unplaced := by
  have hspans : Span.unplaced ∘ Span.unplaced = Span.unplaced := rfl
  have hdiagnostic : Diagnostic.unplaced ∘ Diagnostic.unplaced = Diagnostic.unplaced := by
    funext d
    simp only [Function.comp_apply, Diagnostic.unplaced, List.map_map, hspans]
  rw [List.map_map, hdiagnostic]

/-- Compiling a document does not depend on line numbers and columns. -/
theorem compile_unplaced (path : Option Text) (strict : Bool) (d : Document) :
    ((unplacing.document d).compile path strict).map Compilation.unplaced =
      (d.compile path strict).map Compilation.unplaced := by
  have hds : (unplacing.document d).diagnostics = d.diagnostics.map Diagnostic.unplaced := rfl
  have hsuffix := unplacing.outputSuffix_document d
  have hgenerate := unplacing.generate_document path d
  have hfailure : (if strict then strictFailure? path (unplacing.document d).diagnostics else none).map
      unplacing.failure = (if strict then strictFailure? path d.diagnostics else none).map unplacing.failure := by
    cases strict with
    | false => rfl
    | true => exact strictFailure?_unplaced path d.diagnostics
  unfold compile
  cases hstrict : (if strict then strictFailure? path d.diagnostics else none) with
  | some f =>
    -- the source is refused, and so it is without its places
    rw [hstrict] at hfailure
    obtain ⟨g, hg, hfg⟩ := Option.map_eq_some_iff.mp hfailure
    rw [hg]
    simp only [Except.map, Compilation.unplaced, hsuffix, hds, diagnostics_unplaced, Option.map_some, hfg]
  | none =>
    rw [hstrict] at hfailure
    -- the generator gives the same output or fails for the same reason
    rw [Option.map_eq_none_iff.mp hfailure, hgenerate]
    cases d.generate path with
    | ok output =>
      simp only [Except.mapError, Except.map, Compilation.unplaced, hsuffix, hds, diagnostics_unplaced]
    | error e =>
      cases e with
      | failed f =>
        simp only [Except.mapError, View.generateError, Except.map, Compilation.unplaced, hsuffix, hds,
          diagnostics_unplaced, Option.map_some, failure_unplaced]
      | digits fault => rfl

end Document

/-! ### Sources of the same layout -/

/-- The indents of the non-blank lines of a source. -/
def indents (source : Text) : List Nat := (contentLines source).map indentOf

/-- The non-blank lines of the two sources are the same when they are trimmed, and any two of them are indented in the
same order. -/
structure SameLayout (source source' : Text) : Prop where
  texts : (contentLines source).map Text.trim = (contentLines source').map Text.trim
  order : ∀ k < (indents source).length, ∀ l < (indents source).length,
    ((indents source).getD k 0 < (indents source).getD l 0 ↔ (indents source').getD k 0 < (indents source').getD l 0)

/-- The tokens at one position of the two sources. -/
def Paired (source source' : Text) (t u : LineToken) : Prop :=
  ∃ k : Nat, (LineToken.tokenize source)[k]? = some t ∧ (LineToken.tokenize source')[k]? = some u

theorem indents_eq_tokenize (source : Text) : indents source = (LineToken.tokenize source).map (·.indent) := by
  rw [indents, ← LineToken.raws_tokenize, List.map_map]
  refine List.map_congr_left fun t ht => ?_
  rw [LineToken.eq_classify_of_mem ht]
  simp

namespace SameLayout

variable {source source' : Text} {t u t' u' : LineToken}

theorem trim (h : SameLayout source source') (hp : Paired source source' t u) : Text.trim t.raw = Text.trim u.raw := by
  obtain ⟨k, ht, hu⟩ := hp
  have hk : ((contentLines source).map Text.trim)[k]? = ((contentLines source').map Text.trim)[k]? := by rw [h.texts]
  rw [← LineToken.raws_tokenize, ← LineToken.raws_tokenize] at hk
  simpa only [List.getElem?_map, ht, hu, Option.map_some, Option.some.injEq] using hk

theorem text (h : SameLayout source source') (hp : Paired source source' t u) :
    t.toBodyLine.text = u.toBodyLine.text := h.trim hp

theorem indent_lt_iff (h : SameLayout source source') (hp : Paired source source' t u)
    (hp' : Paired source source' t' u') : t.indent < t'.indent ↔ u.indent < u'.indent := by
  obtain ⟨k, ht, hu⟩ := hp
  obtain ⟨l, ht', hu'⟩ := hp'
  have hk := (List.getElem?_eq_some_iff.mp ht).1
  have hl := (List.getElem?_eq_some_iff.mp ht').1
  have ho := h.order
  simp only [indents_eq_tokenize, List.length_map, List.getD_eq_getElem?_getD, List.getElem?_map] at ho
  simpa only [ht, hu, ht', hu', Option.map_some, Option.getD_some] using ho k hk l hl

theorem length_eq (h : SameLayout source source') :
    (LineToken.tokenize source).length = (LineToken.tokenize source').length := by
  have hlength := congrArg List.length h.texts
  rwa [List.length_map, List.length_map, ← LineToken.raws_tokenize, ← LineToken.raws_tokenize, List.length_map,
    List.length_map] at hlength

/-- Lines at one position correspond, seen without places. -/
def correspondence (h : SameLayout source source') (filename : Option Text) :
    Correspondence filename unplacing unplacing where
  Line l m := ∃ t u, Paired source source' t u ∧ l = t.toBodyLine ∧ m = u.toBodyLine
  line _ := rfl
  place _ := rfl
  report := by
    rintro l m ⟨t, u, hp, rfl, rfl⟩ p
    simp only [LineToken.toBodyLine, Problem.diagnose, h.trim hp]
    rfl
  code := by
    rintro l m ⟨t, u, hp, rfl, rfl⟩
    unfold BodyLine.code
    rw [h.text hp]
  isComment := by
    rintro l m ⟨t, u, hp, rfl, rfl⟩
    unfold BodyLine.isComment
    rw [h.text hp]
  comment := by
    rintro l m ⟨t, u, hp, rfl, rfl⟩ -
    exact h.text hp
  nonneg := by
    rintro l m ⟨t, u, -, rfl, rfl⟩
    exact ⟨Int.natCast_nonneg _, Int.natCast_nonneg _⟩
  order := by
    rintro l m l' m' ⟨t, u, hp, rfl, rfl⟩ ⟨t', u', hp', rfl, rfl⟩
    have := h.indent_lt_iff hp hp'
    simp only [LineToken.toBodyLine]
    omega

/-- The tokens of two sources of the same layout correspond one by one. -/
theorem forall₂_tokenize (h : SameLayout source source') (filename : Option Text) :
    List.Forall₂ (h.correspondence filename).Token (LineToken.tokenize source) (LineToken.tokenize source') := by
  refine List.forall₂_iff_get.mpr ⟨h.length_eq, fun k hk hk' => ?_⟩
  have hp : Paired source source' ((LineToken.tokenize source).get ⟨k, hk⟩)
      ((LineToken.tokenize source').get ⟨k, hk'⟩) := ⟨k, List.getElem?_eq_getElem hk, List.getElem?_eq_getElem hk'⟩
  have ht := LineToken.eq_classify_of_mem (List.get_mem (LineToken.tokenize source) ⟨k, hk⟩)
  have hu := LineToken.eq_classify_of_mem (List.get_mem (LineToken.tokenize source') ⟨k, hk'⟩)
  obtain ⟨hkind, htext⟩ := LineToken.classify_of_trim (h.trim hp) _ _
  exact ⟨⟨_, _, hp, rfl, rfl⟩, ht ▸ hu ▸ hkind, ht ▸ hu ▸ htext⟩

end SameLayout

/-- **Only the order of indents matters.**  Sources of the same layout compile to the same result up to line numbers
and columns: both succeed with the same output, or both fail with the same error, and the suffix and all reports
agree. -/
theorem compile_sameLayout (path : Option Text) (strict : Bool) {source source' : Text}
    (h : SameLayout source source') :
    (compile path strict source).map Compilation.unplaced = (compile path strict source').map Compilation.unplaced := by
  have hread := Document.read_alike _ (h.forall₂_tokenize path)
  calc ((Document.read path source).compile path strict).map Compilation.unplaced
    _ = ((unplacing.document (Document.read path source)).compile path strict).map Compilation.unplaced :=
        (Document.compile_unplaced path strict _).symm
    _ = ((unplacing.document (Document.read path source')).compile path strict).map Compilation.unplaced := by
        rw [hread]
    _ = ((Document.read path source').compile path strict).map Compilation.unplaced :=
        Document.compile_unplaced path strict _

/-- A server whose route answers with a block, followed by a stray property, in two layouts. -/
theorem compile_sameLayout_server :
    SameLayout "server A\n  get h /h\n    return\n      ok: 1\n      ids:\n        - 2\n.size: 2"
        "server A\n\n get h /h\n     return  \n       ok: 1\n       ids:\n               - 2\n\n.size: 2\n" ∧
      (compile none false "server A\n  get h /h\n    return\n      ok: 1\n      ids:\n        - 2\n.size: 2").map
          Compilation.unplaced =
        (compile none false
          "server A\n\n get h /h\n     return  \n       ok: 1\n       ids:\n               - 2\n\n.size: 2\n").map
          Compilation.unplaced := by
  have hnarrow : indents "server A\n  get h /h\n    return\n      ok: 1\n      ids:\n        - 2\n.size: 2" =
      [0, 2, 4, 6, 6, 8, 0] := by decide
  have hwide : indents
      "server A\n\n get h /h\n     return  \n       ok: 1\n       ids:\n               - 2\n\n.size: 2\n" =
        [0, 1, 5, 7, 7, 15, 0] := by decide
  have h : SameLayout "server A\n  get h /h\n    return\n      ok: 1\n      ids:\n        - 2\n.size: 2"
      "server A\n\n get h /h\n     return  \n       ok: 1\n       ids:\n               - 2\n\n.size: 2\n" := by
    refine ⟨by decide, ?_⟩
    rw [hnarrow, hwide]
    decide
  exact ⟨h, compile_sameLayout none false h⟩

end Trellis
