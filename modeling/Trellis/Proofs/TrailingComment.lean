import Trellis.Proofs.Shift
import Trellis.Proofs.Trimming

/-!
# Trailing comments

A comment behind a line changes nothing that is made of the line.  The reader strips comments in four places, each time
from the trimmed line; `stripComment_trim` says that the trimming does not matter, and `stripComment_remark` that a
comment behind closed quotes, or behind a comment, is not seen at all.  So a line and the line with a comment correspond
(`sameCode_remark`), and the two sources compile to the same result, up to the text of the line in what is reported
about it (`compile_trailing_comment`).
-/

namespace Trellis

/-! ### The code before a comment -/

/-- The characters before the first `#` outside quotes, where `opened` is the quote open at the start. -/
def codeFrom (opened : Option Char) : Text → Text
  | [] => []
  | c :: t => if c = '#' ∧ opened = none then [] else c :: codeFrom (quoteAfter opened c) t

/-- The quote that is open behind a text. -/
def quoteBehind (opened : Option Char) (t : Text) : Option Char := t.foldl quoteAfter opened

variable {opened : Option Char} {s t : Text}

theorem findUnquotedFrom_cons (opened : Option Char) (c : Char) (t : Text) :
    findUnquotedFrom '#' opened (c :: t) =
      if c = '#' ∧ opened = none then some 0 else (findUnquotedFrom '#' (quoteAfter opened c) t).map (· + 1) := by
  have hquote : isQuote '#' = false := by decide
  rw [findUnquotedFrom]
  by_cases h : c = '#' ∧ opened = none
  · obtain ⟨rfl, rfl⟩ := h
    simp [hquote]
  · have hnot : ¬ (!isQuote c && decide (c = '#') && decide (opened = none)) = true := by
      intro hall
      simp only [Bool.and_eq_true, decide_eq_true_eq] at hall
      exact h ⟨hall.1.2, hall.2⟩
    rw [if_neg hnot, if_neg h]

theorem codeFrom_eq (opened : Option Char) (t : Text) :
    codeFrom opened t = (findUnquotedFrom '#' opened t).elim t (t.take ·) := by
  induction t generalizing opened with
  | nil => rfl
  | cons c t ih =>
    rw [codeFrom, findUnquotedFrom_cons]
    split
    · rfl
    · rw [ih]
      cases findUnquotedFrom '#' (quoteAfter opened c) t <;> rfl

theorem stripComment_eq (t : Text) : stripComment t = Text.trim (codeFrom none t) := by
  rw [codeFrom_eq]
  unfold stripComment findUnquoted
  cases findUnquotedFrom '#' none t <;> rfl

/-- Behind a comment everything is comment. -/
theorem codeFrom_append_of_comment (h : (findUnquotedFrom '#' opened s).isSome = true) (t : Text) :
    codeFrom opened (s ++ t) = codeFrom opened s := by
  induction s generalizing opened with
  | nil => cases h
  | cons c s ih =>
    rw [findUnquotedFrom_cons] at h
    rw [List.cons_append, codeFrom, codeFrom]
    by_cases hc : c = '#' ∧ opened = none
    · rw [if_pos hc, if_pos hc]
    · rw [if_neg hc, Option.isSome_map] at h
      rw [if_neg hc, if_neg hc, ih h]

/-- Behind code the quotes that it leaves open count. -/
theorem codeFrom_append (h : findUnquotedFrom '#' opened s = none) (t : Text) :
    codeFrom opened (s ++ t) = s ++ codeFrom (quoteBehind opened s) t := by
  induction s generalizing opened with
  | nil => rfl
  | cons c s ih =>
    rw [findUnquotedFrom_cons] at h
    by_cases hc : c = '#' ∧ opened = none
    · rw [if_pos hc] at h
      cases h
    · rw [if_neg hc, Option.map_eq_none_iff] at h
      rw [List.cons_append, codeFrom, if_neg hc, ih h]
      rfl

theorem codeFrom_eq_self (h : findUnquotedFrom '#' opened s = none) : codeFrom opened s = s := by
  have hnil := codeFrom_append h []
  rwa [List.append_nil, codeFrom, List.append_nil] at hnil

/-- Blanks hold neither comments nor quotes. -/
theorem findUnquotedFrom_blanks (hs : s.Blanks) (opened : Option Char) :
    findUnquotedFrom '#' opened s = none ∧ quoteBehind opened s = opened := by
  induction s with
  | nil => exact ⟨rfl, rfl⟩
  | cons c s ih =>
    obtain ⟨hc, hs⟩ := List.forall_mem_cons.mp hs
    obtain ⟨hfind, hbehind⟩ := ih hs
    have hhash : ¬ (c = '#' ∧ opened = none) := by
      rintro ⟨rfl, -⟩
      exact absurd hc (by decide)
    have hquote : isQuote c = false := by
      by_contra hq
      simp only [isQuote, Bool.not_eq_false, Bool.or_eq_true, decide_eq_true_eq] at hq
      rcases hq with (rfl | rfl) | rfl <;> exact absurd hc (by decide)
    have hafter : quoteAfter opened c = opened := by
      unfold quoteAfter
      rw [hquote]
      rfl
    constructor
    · rw [findUnquotedFrom_cons, if_neg hhash, hafter, hfind]
      rfl
    · show quoteBehind (quoteAfter opened c) s = opened
      rw [hafter, hbehind]

/-- **Stripping a comment** does not depend on the blanks around the line. -/
theorem stripComment_trim (t : Text) : stripComment (Text.trim t) = stripComment t := by
  obtain ⟨lead, tail, hlead, htail, ht, -⟩ := Text.exists_blanks t
  obtain ⟨hnone, hopen⟩ := findUnquotedFrom_blanks hlead none
  have hbehind : Text.trim (codeFrom none (Text.trim t ++ tail)) = Text.trim (codeFrom none (Text.trim t)) := by
    cases hfind : findUnquotedFrom '#' none (Text.trim t) with
    | some i => rw [codeFrom_append_of_comment (by rw [hfind]; rfl)]
    | none =>
      rw [codeFrom_append hfind, codeFrom_eq_self (findUnquotedFrom_blanks htail _).1, Text.trim_append_blanks htail,
        codeFrom_eq_self hfind]
  calc stripComment (Text.trim t) = Text.trim (codeFrom none (Text.trim t)) := stripComment_eq _
    _ = Text.trim (codeFrom none (Text.trim t ++ tail)) := hbehind.symm
    _ = Text.trim (lead ++ codeFrom none (Text.trim t ++ tail)) := (Text.trim_blanks_append hlead _).symm
    _ = Text.trim (codeFrom none (lead ++ (Text.trim t ++ tail))) := by rw [codeFrom_append hnone, hopen]
    _ = stripComment t := by rw [← List.append_assoc, ← ht, stripComment_eq]

def remark (comment : Text) : Text := " # " ++ comment

/-- A line that a trailing comment can follow: it is neither blank nor a comment, and it has a trailing comment already
or all its quotes are closed. -/
structure TakesRemark (line : Text) : Prop where
  notBlank : Text.trim line ≠ []
  notComment : (Text.trim line).head? ≠ some '#'
  closed : (findUnquoted '#' line).isSome = true ∨ quoteBehind none line = none

/-- **A trailing comment is stripped.** -/
theorem stripComment_remark {line : Text} (h : TakesRemark line) (comment : Text) :
    stripComment (line ++ remark comment) = stripComment line := by
  rw [stripComment_eq, stripComment_eq]
  cases hfind : findUnquotedFrom '#' none line with
  | some i => rw [codeFrom_append_of_comment (by rw [hfind]; rfl)]
  | none =>
    have hclosed : quoteBehind none line = none := by
      rcases h.closed with hsome | hclosed
      · rw [findUnquoted, hfind] at hsome
        cases hsome
      · exact hclosed
    have hblank : Text.Blanks [' '] := List.forall_mem_singleton.mpr (by decide)
    have hremark : codeFrom none (remark comment) = [' '] := rfl
    rw [codeFrom_append hfind, hclosed, hremark, Text.trim_append_blanks hblank, codeFrom_eq_self hfind]

/-! ### Lines with the same code -/

/-- Two lines at one place whose code is the same. -/
structure SameCode (l m : BodyLine) : Prop where
  line : l.line = m.line
  indent : l.indent = m.indent
  nonneg : 0 ≤ l.indent
  start : (Span.ofLine l.line l.raw none).startCol = (Span.ofLine m.line m.raw none).startCol
  code : l.code = m.code
  isComment : l.isComment = m.isComment
  comment : l.isComment = true → l.text = m.text

def Span.withoutEnd (s : Span) : Span := { s with endCol := 0 }

/-- The diagnostic without the text of the line it is about, and without where that text ends. -/
def Diagnostic.withoutText (d : Diagnostic) : Diagnostic :=
  { d with text := [], spans := d.spans.map Span.withoutEnd }

/-- Everything without the text of its line. -/
def View.withoutText : View :=
  { line := fun l => { l with raw := [] }, place := id, report := Diagnostic.withoutText }

/-- Lines with the same code correspond. -/
def sameCode (filename : Option Text) : Correspondence filename .withoutText .withoutText where
  Line := SameCode
  line := by
    intro l m h
    simp only [View.withoutText, h.line, h.indent]
  place := by
    intro l m h
    simp only [Statement.locate, h.line, h.indent]
  report := by
    intro l m h p
    have hspan : (Span.ofLine l.line l.raw filename).withoutEnd = (Span.ofLine m.line m.raw filename).withoutEnd := by
      have hstart := h.start
      simp only [Span.ofLine] at hstart
      simp only [Span.ofLine, Span.withoutEnd, hstart, h.line]
    simp only [View.withoutText, Diagnostic.withoutText, Problem.diagnose, List.map_cons, List.map_nil, hspan]
  code := fun h => h.code
  isComment := fun h => h.isComment
  comment := fun h => h.comment
  nonneg := fun h => ⟨h.nonneg, h.indent ▸ h.nonneg⟩
  order := by
    intro l m l' m' h h'
    rw [h.indent, h'.indent]

theorem sameCode_refl (filename : Option Text) (t : LineToken) : (sameCode filename).Token t t :=
  ⟨⟨rfl, rfl, Int.natCast_nonneg _, rfl, rfl, rfl, fun _ => rfl⟩, rfl, rfl⟩

theorem LineToken.classify_of_code {raw : Text} (h : (Text.trim raw).head? ≠ some '#') (n : Nat) :
    classify n raw = ⟨n, indentOf raw, (kindOf (stripComment raw)).1, (kindOf (stripComment raw)).2, raw⟩ := by
  unfold classify
  split
  · rename_i t hraw
    rw [hraw] at h
    exact absurd rfl h
  · rw [stripComment_trim]

/-- A line and the line with a trailing comment are tokens that a reader cannot tell apart. -/
theorem sameCode_remark (filename : Option Text) {line : Text} (h : TakesRemark line) (comment : Text) (n : Nat) :
    (sameCode filename).Token (LineToken.classify n line) (LineToken.classify n (line ++ remark comment)) := by
  obtain ⟨hindent, hhead⟩ := Text.indentOf_append h.notBlank (remark comment)
  have hcode := stripComment_remark h comment
  have hnotComment : (Text.trim (line ++ remark comment)).head? ≠ some '#' := by
    rw [hhead]
    exact h.notComment
  have hnotBlank := Text.trim_append_ne_nil h.notBlank (remark comment)
  rw [LineToken.classify_of_code h.notComment, LineToken.classify_of_code hnotComment, hcode, hindent]
  have hline : ∀ raw : Text, (Text.trim raw).head? ≠ some '#' →
      (BodyLine.mk n (indentOf line) raw).isComment = false := fun raw hraw => decide_eq_false hraw
  refine ⟨⟨rfl, rfl, Int.natCast_nonneg _, ?_, ?_, ?_, ?_⟩, rfl, rfl⟩
  · show (Span.ofLine n line none).startCol = (Span.ofLine n (line ++ remark comment) none).startCol
    rw [Span.ofLine_eq _ h.notBlank, Span.ofLine_eq _ hnotBlank, hindent]
  · show stripComment (Text.trim line) = stripComment (Text.trim (line ++ remark comment))
    rw [stripComment_trim, stripComment_trim, hcode]
  · exact (hline _ h.notComment).trans (hline _ hnotComment).symm
  · intro hcomment
    exact absurd ((hline _ h.notComment).symm.trans hcomment) (by simp)

/-! ### Appending to a line of a source -/

namespace Text

/-- The text with `x` put at the end of its line `n`, counted from zero, before the terminator of the line. -/
def appendToLine (x : Text) : Nat → Text → Text
  | 0, t => t.takeWhile (!isBreak ·) ++ x ++ t.dropWhile (!isBreak ·)
  | _ + 1, [] => []
  | n + 1, '\r' :: '\n' :: t => '\r' :: '\n' :: appendToLine x n t
  | n + 1, c :: t => c :: appendToLine x (if isBreak c then n else n + 1) t

/-- A character that ends no line joins the line behind it. -/
theorem lines_cons {c : Char} (hc : isBreak c = false) (t : Text) :
    lines (c :: t) = (c :: (lines t).headD []) :: (lines t).tail := by
  have hcr : c ≠ '\r' := by
    rintro rfl
    exact absurd hc (by decide)
  rw [lines.eq_3 _ _ (fun _ h => absurd h hcr), if_neg (by simp [hc])]
  cases lines t <;> rfl

/-- A terminator ends a line. -/
theorem lines_break {c : Char} (hc : isBreak c = true) {t : Text} (ht : c = '\r' → t.head? ≠ some '\n') :
    lines (c :: t) = [] :: lines t := by
  have hcut : ∀ u, c = '\r' → t = '\n' :: u → False := by
    intro u hcr htu
    refine ht hcr ?_
    rw [htu]
    rfl
  rw [lines.eq_3 _ _ hcut, if_pos hc]

/-- The first line of a text reaches to its first terminator. -/
theorem lines_append {l b : Text} (hl : ∀ c ∈ l, isBreak c = false) (hb : ∀ c ∈ b.head?, isBreak c = true)
    (hne : l ++ b ≠ []) : lines (l ++ b) = l :: (lines b).tail := by
  induction l with
  | nil =>
    rw [List.nil_append] at hne ⊢
    unfold lines
    split
    · exact absurd rfl hne
    · rfl
    · rw [if_pos (hb _ rfl)]
      rfl
  | cons c l ih =>
    obtain ⟨hc, hl⟩ := List.forall_mem_cons.mp hl
    rw [List.cons_append, lines_cons hc]
    by_cases hnil : l ++ b = []
    · obtain ⟨rfl, rfl⟩ := List.append_eq_nil_iff.mp hnil
      rfl
    · rw [ih hl hnil]
      rfl

theorem head?_appendToLine {x : Text} (hx : ∀ c ∈ x, isBreak c = false) {n : Nat} {t : Text}
    (h : (appendToLine x n t).head? = some '\n') : t.head? = some '\n' := by
  fun_cases appendToLine x n t with
  | case1 t =>
    simp only [appendToLine] at h
    cases t with
    | nil =>
      have hmem := hx '\n' (List.mem_of_mem_head? (by simpa using h))
      exact absurd hmem (by decide)
    | cons c t =>
      -- the line is empty if a break comes first, and then the addition comes first
      by_cases hc : isBreak c = true
      · simp only [List.takeWhile_cons, List.dropWhile_cons, hc] at h
        cases x with
        | nil => exact h
        | cons d x =>
          obtain rfl : d = '\n' := by simpa using h
          exact absurd (hx '\n' List.mem_cons_self) (by decide)
      · simp only [List.takeWhile_cons, hc] at h
        simpa using h
  | case2 n => cases h
  | case3 n t => exact h
  | case4 n c t hcut =>
    rw [appendToLine.eq_4 _ _ _ _ hcut] at h
    exact h

/-- **The lines of a text** with something appended to one of them. -/
theorem lines_appendToLine {x : Text} (hx : ∀ c ∈ x, isBreak c = false) {n : Nat} {source line : Text}
    (h : (lines source)[n]? = some line) :
    ∃ before after, before.length = n ∧ lines source = before ++ line :: after ∧
      lines (appendToLine x n source) = before ++ (line ++ x) :: after := by
  fun_induction appendToLine x n source with
  | case1 t =>
    have hsplit : t.takeWhile (!isBreak ·) ++ t.dropWhile (!isBreak ·) = t := List.takeWhile_append_dropWhile
    have hne : t ≠ [] := by
      rintro rfl
      cases h
    have hplain : ∀ c ∈ t.takeWhile (!isBreak ·), isBreak c = false := by
      intro c hc
      simpa using List.mem_takeWhile_imp hc
    have hstop : ∀ c ∈ (t.dropWhile (!isBreak ·)).head?, isBreak c = true := by
      intro c hc
      have hnot := List.head?_dropWhile_not (!isBreak ·) t
      rw [Option.mem_def.mp hc] at hnot
      simpa using hnot
    have hlines := lines_append hplain hstop (by rwa [hsplit])
    rw [hsplit] at hlines
    rw [hlines] at h
    obtain rfl : t.takeWhile (!isBreak ·) = line := by simpa using h
    refine ⟨[], (lines (t.dropWhile (!isBreak ·))).tail, rfl, hlines, ?_⟩
    refine lines_append (fun c hc => ?_) hstop fun hnil => ?_
    · rcases List.mem_append.mp hc with hc | hc
      · exact hplain c hc
      · exact hx c hc
    · obtain ⟨hfirst, hrest⟩ := List.append_eq_nil_iff.mp hnil
      rw [(List.append_eq_nil_iff.mp hfirst).1, hrest] at hsplit
      exact hne hsplit.symm
  | case2 n => cases h
  | case3 n t ih =>
    obtain ⟨before, after, hlength, hlines, hnew⟩ := ih h
    refine ⟨[] :: before, after, congrArg (· + 1) hlength, ?_, ?_⟩
    · rw [lines, hlines]
      rfl
    · rw [lines, hnew]
      rfl
  | case4 n c t hcut ih =>
    by_cases hc : isBreak c = true
    · have hhead : c = '\r' → t.head? ≠ some '\n' := by
        intro hcr ht
        obtain ⟨u, rfl⟩ := List.head?_eq_some_iff.mp ht
        exact hcut u hcr rfl
      rw [lines_break hc hhead] at h ⊢
      rw [if_pos hc] at ih ⊢
      obtain ⟨before, after, hlength, hlines, hnew⟩ := ih h
      refine ⟨[] :: before, after, congrArg (· + 1) hlength, by rw [hlines]; rfl, ?_⟩
      rw [lines_break hc fun hcr ht => hhead hcr (head?_appendToLine hx ht), hnew]
      rfl
    · have hplain : isBreak c = false := by simpa using hc
      rw [lines_cons hplain] at h ⊢
      rw [if_neg hc] at ih ⊢
      have hnext : (lines t)[n + 1]? = some line := by
        rw [← List.getElem?_tail]
        exact h
      obtain ⟨before, after, hlength, hlines, hnew⟩ := ih hnext
      -- the line is not the first one, so `c` joins a line before it
      cases before with
      | nil => cases hlength
      | cons l before =>
        refine ⟨(c :: l) :: before, after, hlength, by rw [hlines]; rfl, ?_⟩
        rw [lines_cons hplain, hnew]
        rfl

theorem not_isBreak_of_all {t : Text} (h : t.all (fun c => !isBreak c) = true) : ∀ c ∈ t, isBreak c = false := by
  intro c hc
  have hnot := List.all_eq_true.mp h c hc
  rwa [Bool.not_eq_true'] at hnot

end Text

/-- The tokens of a source and of the source with a trailing comment behind one line. -/
theorem sameCode_tokenize (filename : Option Text) {source line comment : Text} {n : Nat}
    (hline : (Text.lines source)[n]? = some line) (h : TakesRemark line) (hc : ∀ c ∈ comment, Text.isBreak c = false) :
    List.Forall₂ (sameCode filename).Token (LineToken.tokenize source)
      (LineToken.tokenize (Text.appendToLine (remark comment) n source)) := by
  have hmark := Text.not_isBreak_of_all (t := " # ") (by decide)
  have hremark : ∀ c ∈ remark comment, Text.isBreak c = false := fun c hmem =>
    (List.mem_append.mp hmem).elim (hmark c) (hc c)
  have hshown : ∀ l : Text, Text.trim l ≠ [] → ¬ Text.isBlankText l = true := fun l hl hblank =>
    hl (Text.trim_eq_nil_iff.mpr (List.all_eq_true.mp hblank))
  have hsame : ∀ ts : List LineToken, List.Forall₂ (sameCode filename).Token ts ts := fun ts =>
    List.forall₂_same.mpr fun t _ => sameCode_refl filename t
  have hnotBlank := Text.trim_append_ne_nil h.notBlank (remark comment)
  obtain ⟨before, after, -, hlines, hnew⟩ := Text.lines_appendToLine hremark hline
  unfold LineToken.tokenize
  rw [hlines, hnew, LineToken.ofLines_append, LineToken.ofLines_append]
  refine List.rel_append (hsame _) ?_
  rw [LineToken.ofLines, if_neg (hshown _ h.notBlank), LineToken.ofLines, if_neg (hshown _ hnotBlank)]
  exact .cons (sameCode_remark filename h comment _) (hsame _)

/-! ### Compiling -/

/-- The failure without the text of the line it is about. -/
def Failure.withoutText (f : Failure) : Failure := { f with sourceLine := none }

/-- The result without the texts of the lines that it is about. -/
def Compilation.withoutText (c : Compilation) : Compilation :=
  { c with diagnostics := c.diagnostics.map Diagnostic.withoutText, error := c.error.map Failure.withoutText }

namespace Document

theorem strictFailure?_withoutText (path : Option Text) (ds : List Diagnostic) :
    (strictFailure? path (ds.map Diagnostic.withoutText)).map Failure.withoutText =
      (strictFailure? path ds).map Failure.withoutText := by
  have herrors : Diagnostic.errors (ds.map Diagnostic.withoutText) =
      (Diagnostic.errors ds).map Diagnostic.withoutText := List.filter_map
  unfold strictFailure?
  rw [herrors]
  cases Diagnostic.errors ds with
  | nil => rfl
  | cons first rest =>
    have hlocation : ∀ spans : List Span,
        ((spans.map Span.withoutEnd).head?.map fun s => (⟨s.line, s.startCol, path⟩ : Location)) =
          spans.head?.map fun s => ⟨s.line, s.startCol, path⟩ := by
      intro spans
      cases spans <;> rfl
    simp only [List.map_cons, Option.map_some, List.length_map, Failure.withoutText, Diagnostic.span?,
      Diagnostic.withoutText, hlocation]

/-- What is generated does not depend on the texts of lines. -/
theorem generate_withoutText (path : Option Text) (d : Document) :
    (View.withoutText.document d).generate path = d.generate path := by
  have hid : ∀ f : Failure, View.withoutText.failure f = f := by
    intro f
    simp only [View.failure, View.withoutText, Option.map_id, id]
  rw [View.generate_document]
  cases d.generate path with
  | ok output => rfl
  | error e =>
    cases e with
    | failed f => simp only [Except.mapError, View.generateError, hid]
    | digits fault => rfl

/-- Documents that differ in the texts of lines only compile to results that do. -/
theorem compile_withoutText (path : Option Text) (strict : Bool) {d e : Document}
    (h : View.withoutText.document d = View.withoutText.document e) :
    (d.compile path strict).map Compilation.withoutText = (e.compile path strict).map Compilation.withoutText := by
  have hgenerate : d.generate path = e.generate path := by
    rw [← generate_withoutText path d, h, generate_withoutText]
  have hsuffix : d.outputSuffix = e.outputSuffix := by
    rw [← View.withoutText.outputSuffix_document d, h, View.outputSuffix_document]
  have hds : d.diagnostics.map Diagnostic.withoutText = e.diagnostics.map Diagnostic.withoutText :=
    congrArg Document.diagnostics h
  have hstrict : (if strict then strictFailure? path d.diagnostics else none).map Failure.withoutText =
      (if strict then strictFailure? path e.diagnostics else none).map Failure.withoutText := by
    cases strict with
    | false => rfl
    | true =>
      show (strictFailure? path d.diagnostics).map Failure.withoutText = _
      rw [← strictFailure?_withoutText, hds, strictFailure?_withoutText]
      rfl
  unfold compile
  cases hd : (if strict then strictFailure? path d.diagnostics else none) with
  | some f =>
    -- both are refused, at errors that differ in their texts only
    rw [hd] at hstrict
    obtain ⟨g, hg, hfg⟩ := Option.map_eq_some_iff.mp hstrict.symm
    rw [hg]
    simp only [Except.map, Compilation.withoutText, hsuffix, hds, Option.map_some, hfg]
  | none =>
    rw [hd] at hstrict
    rw [Option.map_eq_none_iff.mp hstrict.symm, hgenerate]
    cases e.generate path with
    | ok output => simp only [Except.map, Compilation.withoutText, hsuffix, hds]
    | error x =>
      cases x with
      | failed f => simp only [Except.map, Compilation.withoutText, hsuffix, hds]
      | digits fault => rfl

end Document

/-- **Trailing comments are inert.**  A comment behind a line of a source changes neither whether the source compiles nor
the suffix and the output, and every diagnostic keeps its code, level, message, line and helps; only the text of the
line, where a diagnostic or a failure shows it, has the comment too. -/
theorem compile_trailing_comment (path : Option Text) (strict : Bool) {source line comment : Text} {n : Nat}
    (hline : (Text.lines source)[n]? = some line) (h : TakesRemark line) (hc : ∀ c ∈ comment, Text.isBreak c = false) :
    (compile path strict (Text.appendToLine (remark comment) n source)).map Compilation.withoutText =
      (compile path strict source).map Compilation.withoutText := by
  have hread := Document.read_alike _ (sameCode_tokenize path hline h hc)
  exact (Document.compile_withoutText path strict hread).symm

/-- A comment with an open quote, behind an item of a literal block that has a `#` in quotes. -/
theorem compile_trailing_comment_item :
    TakesRemark "      - \"a # b\": it" ∧
      Text.appendToLine (remark "isn't") 3 "server A\r\n  get h /h\r\n    return\r\n      - \"a # b\": it\r\n      b" =
        "server A\r\n  get h /h\r\n    return\r\n      - \"a # b\": it # isn't\r\n      b" ∧
      (compile none true (Text.appendToLine (remark "isn't") 3
          "server A\r\n  get h /h\r\n    return\r\n      - \"a # b\": it\r\n      b")).map Compilation.withoutText =
        (compile none true
          "server A\r\n  get h /h\r\n    return\r\n      - \"a # b\": it\r\n      b").map Compilation.withoutText := by
  have h : TakesRemark "      - \"a # b\": it" := ⟨by decide, by decide, .inr (by decide)⟩
  have hplain := Text.not_isBreak_of_all (t := "isn't") (by decide)
  exact ⟨h, by decide, compile_trailing_comment none true (by decide) h hplain⟩

end Trellis
