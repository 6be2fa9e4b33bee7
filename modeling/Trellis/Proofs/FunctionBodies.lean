import Trellis.Component.Generate
import Trellis.Proofs.Provenance
import Trellis.Proofs.Trimming

/-!
# Function bodies

What is common to the bodies of all functions: how the statements are read off a forest of lines, one line at a time,
and what they can be.  A response is no statement of a function, and the target of an assignment is a name
(`InFunction`).  The statements of a function in a document are read from its own lines.
-/

namespace Trellis

namespace Text

variable {t n r : Text}

theorem isName_of_takeName? (h : takeName? t = some (n, r)) : isName n = true := by
  cases t with
  | nil => cases h
  | cons c t =>
    rw [takeName?] at h
    split at h
    · rename_i hstart
      obtain ⟨rfl, -⟩ := Prod.mk.inj (Option.some.inj h)
      rw [isName, hstart, Bool.true_and, List.all_takeWhile]
    · cases h

/-- A name is read whole when nothing behind it continues it. -/
theorem takeName?_append_of_isName (hn : isName n = true) (hr : ∀ c ∈ r.head?, isNamePart c = false) :
    takeName? (n ++ r) = some (n, r) := by
  cases n with
  | nil => cases hn
  | cons c n =>
    obtain ⟨hstart, hall⟩ := Bool.and_eq_true_iff.mp hn
    have hparts : ∀ x ∈ n, isNamePart x = true := List.all_eq_true.mp hall
    have hstop : r.takeWhile isNamePart = [] ∧ r.dropWhile isNamePart = r := by
      cases r with
      | nil => exact ⟨rfl, rfl⟩
      | cons d r => simp [hr d rfl]
    rw [List.cons_append, takeName?, if_pos hstart, List.takeWhile_append_of_pos hparts,
      List.dropWhile_append_of_pos hparts, hstop.1, hstop.2, List.append_nil]

end Text

namespace Statement

/-! ### Reading a forest line by line -/

section

variable {filename : Option Text} {previous : Option Statement} {k l : BodyLine}

theorem readForest_comment (hk : k.isComment = true) (below ts : List LineTree) :
    readForest filename previous (.node k below :: ts) =
      previous.toList ++ readForest filename (some (ofComment filename k)) ts := by
  rw [readForest]
  exact if_pos hk

theorem readForest_joined {s : Statement} {below : List LineTree} (hk : k.isComment = false)
    (h : joinElse? previous k (readForest filename none below) = some s) (ts : List LineTree) :
    readForest filename previous (.node k below :: ts) = readForest filename (some s) ts := by
  rw [readForest]
  simp only [hk, readBelow, h, Bool.false_eq_true, if_false]

theorem readForest_own {below : List LineTree} (hk : k.isComment = false)
    (h : joinElse? previous k (readForest filename none below) = none) (ts : List LineTree) :
    readForest filename previous (.node k below :: ts) =
      previous.toList ++ readForest filename (some (ofLine filename k (readForest filename none below))) ts := by
  rw [readForest]
  simp only [hk, readBelow, h, Bool.false_eq_true, if_false]

/-- Whether a line joins the statement before it does not hang on what stands below the line. -/
theorem joinElse?_cases (previous : Option Statement) (l : BodyLine) :
    (∃ condition b location, previous = some (.cond condition b [] location) ∧ l.code = "else" ∧
      ∀ body, joinElse? previous l body = some (.cond condition b body location)) ∨
    ∀ body, joinElse? previous l body = none := by
  by_cases hl : l.code = "else"
  · unfold joinElse?
    simp only [if_pos hl]
    split
    · rename_i condition b location
      exact .inl ⟨condition, b, location, rfl, hl, fun _ => rfl⟩
    · exact .inr fun _ => rfl
  · exact .inr fun _ => if_neg hl

end

/-! ### The statements of functions -/

mutual

/-- The statement can stand in a function. -/
def InFunction : Statement → Prop
  | .comment _ _ => True
  | .raw _ body _ => AllInFunction body
  | .assign target _ body _ => Text.isName target = true ∧ AllInFunction body
  | .cond _ body orelse _ => AllInFunction body ∧ AllInFunction orelse
  | .respond _ _ | .respondBlock _ _ => False

/-- The statements can all stand in a function. -/
def AllInFunction : List Statement → Prop
  | [] => True
  | s :: ss => InFunction s ∧ AllInFunction ss

end

theorem allInFunction_append {ss us : List Statement} (hs : AllInFunction ss) (hu : AllInFunction us) :
    AllInFunction (ss ++ us) := by
  induction ss with
  | nil => exact hu
  | cons s ss ih => exact ⟨hs.1, ih hs.2⟩

theorem isName_of_assignment? {t target value : Text} (h : assignment? t = some (target, value)) :
    Text.isName target = true := by
  obtain ⟨⟨name, r⟩, hname, h⟩ := Option.bind_eq_some_iff.mp h
  dsimp only at h
  split at h
  · cases h
  · split at h
    · cases h
    · obtain ⟨rfl, -⟩ := Prod.mk.inj (Option.some.inj h)
      exact Text.isName_of_takeName? hname
  · cases h

theorem inFunction_ofLine (filename : Option Text) (l : BodyLine) {body : List Statement} (h : AllInFunction body) :
    InFunction (ofLine filename l body) := by
  unfold ofLine
  cases ifCondition? l.code with
  | some condition => exact ⟨h, trivial⟩
  | none =>
    cases hassign : assignment? l.code with
    | some p => exact ⟨isName_of_assignment? hassign, h⟩
    | none => exact h

mutual

theorem allInFunction_readBelow (filename : Option Text) : ∀ t : LineTree, AllInFunction (readBelow filename t)
  | .node _ below => by
    rw [readBelow]
    exact allInFunction_readForest filename none trivial below

theorem allInFunction_readForest (filename : Option Text) (previous : Option Statement)
    (hp : AllInFunction previous.toList) : ∀ ts : List LineTree, AllInFunction (readForest filename previous ts)
  | [] => by
    rw [readForest]
    exact hp
  | .node k below :: ts => by
    have hbody := allInFunction_readBelow filename (.node k below)
    rw [readBelow] at hbody
    cases hk : k.isComment with
    | true =>
      rw [readForest_comment hk]
      exact allInFunction_append hp
        (allInFunction_readForest filename (some (ofComment filename k)) ⟨trivial, trivial⟩ ts)
    | false =>
      rcases joinElse?_cases previous k with ⟨condition, b, location, rfl, -, hjoin⟩ | hnone
      · rw [readForest_joined hk (hjoin _)]
        exact allInFunction_readForest filename (some (.cond condition b _ location)) ⟨⟨hp.1.1, hbody⟩, trivial⟩ ts
      · rw [readForest_own hk (hnone _)]
        exact allInFunction_append hp (allInFunction_readForest filename (some (ofLine filename k _))
          ⟨inFunction_ofLine filename k hbody, trivial⟩ ts)

end

theorem allInFunction_readBody (filename : Option Text) (lines : List BodyLine) :
    AllInFunction (readBody filename lines) :=
  allInFunction_readForest filename none trivial _

end Statement

namespace Document

/-- The statements of a function are read from its lines. -/
theorem statements_of_mem_functions {filename : Option Text} {source : Text} {f : FunctionDecl}
    (h : f ∈ (read filename source).script.functions) : f.statements = Statement.readBody filename f.body := by
  rw [read, (declared_ofTokens filename _).1] at h
  obtain ⟨c, -, hc⟩ := List.mem_filterMap.mp h
  unfold Capture.function? at hc
  split at hc
  · rw [← Option.some.inj hc]
  · cases hc

theorem allInFunction_of_mem_functions {filename : Option Text} {source : Text} {f : FunctionDecl}
    (h : f ∈ (read filename source).script.functions) : Statement.AllInFunction f.statements := by
  rw [statements_of_mem_functions h]
  exact Statement.allInFunction_readBody filename f.body

end Document

namespace Code

/-! ### What is written for a statement -/

/-- The text of a comment line starts with two slashes, whatever is trimmed behind them. -/
theorem commentLine_text (level : Nat) (text : Text) : ∃ r, (commentLine level text).text = "//" ++ r := by
  have hne : Text.trimEnd (("/ " : Text) ++ text) ≠ [] := by
    intro hnil
    exact absurd (Text.trimEnd_eq_nil_iff.mp hnil '/' (by simp)) (by decide)
  have hslash : ∃ r, Text.trimEnd (("/ " : Text) ++ text) = '/' :: r := by
    obtain ⟨tail, -, htail⟩ := Text.exists_trimEnd (("/ " : Text) ++ text)
    obtain ⟨c, r, hr⟩ := List.exists_cons_of_ne_nil hne
    rw [hr] at htail
    have hc : '/' = c := (List.cons.inj htail).1
    exact ⟨r, hc ▸ hr⟩
  obtain ⟨r, hr⟩ := hslash
  refine ⟨r, ?_⟩
  show Text.trimEnd (['/'] ++ (("/ " : Text) ++ text)) = _
  rw [Text.trimEnd_append hne, hr]
  rfl

section

variable (states : List Text) (level : Nat) (scope : Scope) (location : Location)

theorem emit_comment (text : Text) :
    emit states level scope (.comment text location) = ([commentLine level text], scope) := by
  rw [emit]

theorem emit_cond (condition : Text) (body orelse : List Statement) :
    emit states level scope (.cond condition body orelse location) =
      let test := transform states condition
      let inner := emitAll states (level + 1) (scope.await test.2) body
      let other := emitAll states (level + 1) ((scope.await test.2).leave inner.2) orelse
      (⟨level, "if (" ++ test.1 ++ ") \x7b"⟩ :: inner.1 ++
          (if orelse.isEmpty then [] else ⟨level, "\x7d else \x7b"⟩ :: other.1) ++ [⟨level, "\x7d"⟩],
        ((scope.await test.2).leave inner.2).leave other.2) := by
  rw [emit]

theorem emit_assign (target value : Text) (body : List Statement) :
    emit states level scope (.assign target value body location) =
      let line := assignLine states level (scope.await (transform states value).2) target (transform states value).1
      let inner := emitAll states (level + 1) line.2 body
      (line.1 :: inner.1, line.2.leave inner.2) := by
  rw [emit]

theorem emit_raw (text : Text) (body : List Statement) :
    emit states level scope (.raw text body location) =
      let inner := emitAll states (level + 1) (scope.await (transform states text).2) body
      (⟨level, (transform states text).1⟩ :: inner.1, (scope.await (transform states text).2).leave inner.2) := by
  rw [emit]

theorem emitAll_nil : emitAll states level scope [] = ([], scope) := by
  rw [emitAll]

theorem emitAll_cons (s : Statement) (ss : List Statement) :
    emitAll states level scope (s :: ss) =
      let first := emit states level scope s
      let rest := emitAll states level first.2 ss
      (first.1 ++ rest.1, rest.2) := by
  rw [emitAll]

end

end Code

namespace Component

/-- The lines between the braces of a function. -/
def functionBody (states : List Text) (f : FunctionDecl) : List CodeLine :=
  (Code.emitAll states 1 { declared := f.parameters } f.statements).1

/-- The line that opens a function. -/
def functionHeader (states : List Text) (f : FunctionDecl) : Text :=
  let intro : Text :=
    if (Code.emitAll states 1 { declared := f.parameters } f.statements).2.awaited then "async function "
    else "function "
  intro ++ f.name ++ "(" ++ Text.join ", " f.parameters ++ ") \x7b"

theorem functionLines_eq (states : List Text) (f : FunctionDecl) :
    functionLines states f = ⟨0, functionHeader states f⟩ :: functionBody states f ++ [⟨0, "\x7d"⟩] := rfl

end Component

end Trellis
