import Trellis.Proofs.AwaitKeyword

/-!
# Asynchronous functions

The header of a function says `async` exactly when a call in its statements lacks an `await`, which is then inserted; if
no line of the body holds the word at all, it does not.  An `await` that is written in the source does not count: a
function without inserted awaits is not asynchronous, and it awaits where its source does.
-/

namespace Trellis

namespace Statement

mutual

/-- The code of a statement and of everything in it: what stands before an expression in the source, and the
expression. -/
def codes : Statement → List (Text × Text)
  | .comment _ _ | .respondBlock _ _ => []
  | .raw text body _ => ([], text) :: codesAll body
  | .assign target value body _ => (target ++ " = ", value) :: codesAll body
  | .cond condition body orelse _ => ("if ", condition) :: (codesAll body ++ codesAll orelse)
  | .respond value _ => [("return ", value)]

def codesAll : List Statement → List (Text × Text)
  | [] => []
  | s :: ss => codes s ++ codesAll ss

end

end Statement

namespace Code

variable {states : List Text} {level : Nat} {scope : Scope} {lines lines' : List CodeLine} {ps ps' : List (Text × Text)}

/-! ### The lines of the code -/

/-- The line that is written for a piece of code. -/
inductive WrittenFor (states : List Text) : Text × Text → Text → Prop
  | plain (e : Text) : WrittenFor states ([], e) (transform states e).1
  | test (e : Text) : WrittenFor states ("if ", e) ("if (" ++ (transform states e).1 ++ ") \x7b")
  | store {n : Text} (hn : Text.isName n = true) (e : Text) :
      WrittenFor states (n ++ " = ", e) (n ++ ".value = " ++ (transform states e).1)
  | assign {n : Text} (hn : Text.isName n = true) (e : Text) :
      WrittenFor states (n ++ " = ", e) (n ++ " = " ++ (transform states e).1)
  | introduce {n : Text} (hn : Text.isName n = true) (e : Text) :
      WrittenFor states (n ++ " = ", e) ("let " ++ n ++ " = " ++ (transform states e).1)

/-- A line without code: a comment, or only braces. -/
def isBareLine (t : Text) : Bool := Text.startsWith t "//" || t = "\x7d" || t = "\x7d else \x7b"

/-- The lines are those of the code, besides lines without code. -/
structure Covers (states : List Text) (lines : List CodeLine) (ps : List (Text × Text)) : Prop where
  source : ∀ l ∈ lines, isBareLine l.text = true ∨ ∃ p ∈ ps, WrittenFor states p l.text
  target : ∀ p ∈ ps, ∃ l ∈ lines, WrittenFor states p l.text

theorem Covers.nil (states : List Text) : Covers states [] [] := ⟨by simp, by simp⟩

theorem Covers.append (h : Covers states lines ps) (h' : Covers states lines' ps') :
    Covers states (lines ++ lines') (ps ++ ps') := by
  constructor
  · intro l hl
    rcases List.mem_append.mp hl with hl | hl
    · exact (h.source l hl).imp_right fun ⟨p, hp, hw⟩ => ⟨p, List.mem_append_left _ hp, hw⟩
    · exact (h'.source l hl).imp_right fun ⟨p, hp, hw⟩ => ⟨p, List.mem_append_right _ hp, hw⟩
  · intro p hp
    rcases List.mem_append.mp hp with hp | hp
    · obtain ⟨l, hl, hw⟩ := h.target p hp
      exact ⟨l, List.mem_append_left _ hl, hw⟩
    · obtain ⟨l, hl, hw⟩ := h'.target p hp
      exact ⟨l, List.mem_append_right _ hl, hw⟩

theorem Covers.bare (l : CodeLine) (h : isBareLine l.text = true) : Covers states [l] [] :=
  ⟨fun m hm => .inl (List.mem_singleton.mp hm ▸ h), by simp⟩

theorem Covers.code {l : CodeLine} {p : Text × Text} (h : WrittenFor states p l.text) : Covers states [l] [p] := by
  constructor
  · intro m hm
    exact .inr ⟨p, List.mem_singleton_self p, List.mem_singleton.mp hm ▸ h⟩
  · intro q hq
    exact ⟨l, List.mem_singleton_self l, List.mem_singleton.mp hq ▸ h⟩

theorem covers_assignLine (states : List Text) (level : Nat) (scope : Scope) {target : Text}
    (htarget : Text.isName target = true) (value : Text) :
    Covers states [(assignLine states level scope target (transform states value).1).1] [(target ++ " = ", value)] := by
  refine .code ?_
  unfold assignLine
  split
  · exact .store htarget value
  · split
    · exact .assign htarget value
    · exact .introduce htarget value

mutual

theorem covers_emit (states : List Text) (level : Nat) (scope : Scope) :
    ∀ s : Statement, s.InFunction → Covers states (emit states level scope s).1 s.codes
  | .comment text _, _ => by
    obtain ⟨r, hr⟩ := commentLine_text level text
    rw [emit_comment]
    refine .bare _ ?_
    rw [hr]
    rfl
  | .raw text body _, hin => by
    rw [emit_raw]
    exact (Covers.code (l := ⟨level, _⟩) (.plain text)).append (covers_emitAll states (level + 1) _ body hin)
  | .assign target value body _, hin => by
    rw [emit_assign]
    exact (covers_assignLine states level _ hin.1 value).append (covers_emitAll states (level + 1) _ body hin.2)
  | .cond condition body orelse _, hin => by
    have hinner := covers_emitAll states (level + 1) (scope.await (transform states condition).2) body hin.1
    have hother := covers_emitAll states (level + 1) ((scope.await (transform states condition).2).leave
      (emitAll states (level + 1) (scope.await (transform states condition).2) body).2) orelse hin.2
    have hif : Covers states [⟨level, "if (" ++ (transform states condition).1 ++ ") \x7b"⟩] [("if ", condition)] :=
      .code (.test condition)
    -- without an else branch there is no line for it
    have hrest : Covers states (if orelse.isEmpty then [] else ⟨level, "\x7d else \x7b"⟩ :: (emitAll states (level + 1)
        ((scope.await (transform states condition).2).leave
          (emitAll states (level + 1) (scope.await (transform states condition).2) body).2) orelse).1)
        (Statement.codesAll orelse) := by
      cases orelse with
      | nil => exact .nil states
      | cons s ss => exact (Covers.bare ⟨level, "\x7d else \x7b"⟩ rfl).append hother
    have hclose : Covers states [⟨level, "\x7d"⟩] [] := .bare _ rfl
    have hall := hif.append ((hinner.append hrest).append hclose)
    rw [List.append_nil] at hall
    rw [emit_cond]
    exact hall

theorem covers_emitAll (states : List Text) (level : Nat) (scope : Scope) :
    ∀ ss : List Statement, Statement.AllInFunction ss →
      Covers states (emitAll states level scope ss).1 (Statement.codesAll ss)
  | [], _ => by
    rw [emitAll_nil]
    exact .nil states
  | s :: ss, hin => by
    rw [emitAll_cons]
    exact (covers_emit states level scope s hin.1).append (covers_emitAll states level _ ss hin.2)

end

/-! ### The flag -/

theorem transform_changed (states : List Text) (t : Text) : (transform states t).2 = true ↔ LacksAwait t :=
  insertAwaitsFrom_changed

theorem awaited_await (scope : Scope) (states : List Text) (t : Text) :
    (scope.await (transform states t).2).awaited = true ↔ scope.awaited = true ∨ LacksAwait t := by
  rw [← transform_changed states t]
  exact Bool.or_eq_true_iff

theorem awaited_assignLine (states : List Text) (level : Nat) (scope : Scope) (target value : Text) :
    (assignLine states level scope target value).2.awaited = scope.awaited := by
  unfold assignLine
  split
  · rfl
  · split <;> rfl

mutual

theorem awaited_emit (states : List Text) (level : Nat) (scope : Scope) :
    ∀ s : Statement, s.InFunction →
      ((emit states level scope s).2.awaited = true ↔ scope.awaited = true ∨ ∃ p ∈ s.codes, LacksAwait p.2)
  | .comment text _, _ => by
    rw [emit_comment]
    simp [Statement.codes]
  | .raw text body _, hin => by
    have hbody := awaited_emitAll states (level + 1) (scope.await (transform states text).2) body hin
    rw [awaited_await] at hbody
    rw [emit_raw, Statement.codes]
    simp only [List.exists_mem_cons_iff, ← or_assoc]
    exact hbody
  | .assign target value body _, hin => by
    have hbody := awaited_emitAll states (level + 1) (assignLine states level (scope.await (transform states value).2)
      target (transform states value).1).2 body hin.2
    rw [awaited_assignLine, awaited_await] at hbody
    rw [emit_assign, Statement.codes]
    simp only [List.exists_mem_cons_iff, ← or_assoc]
    exact hbody
  | .cond condition body orelse _, hin => by
    have hbody := awaited_emitAll states (level + 1) (scope.await (transform states condition).2) body hin.1
    have horelse := awaited_emitAll states (level + 1) ((scope.await (transform states condition).2).leave
      (emitAll states (level + 1) (scope.await (transform states condition).2) body).2) orelse hin.2
    rw [awaited_await] at hbody
    rw [emit_cond, Statement.codes]
    simp only [List.exists_mem_cons_iff, List.mem_append, or_and_right, exists_or, ← or_assoc]
    -- the body comes first, so its flag is what the else branch starts from
    rw [← hbody]
    exact horelse

theorem awaited_emitAll (states : List Text) (level : Nat) (scope : Scope) :
    ∀ ss : List Statement, Statement.AllInFunction ss →
      ((emitAll states level scope ss).2.awaited = true ↔
        scope.awaited = true ∨ ∃ p ∈ Statement.codesAll ss, LacksAwait p.2)
  | [], _ => by
    rw [emitAll_nil]
    simp [Statement.codesAll]
  | s :: ss, hin => by
    have hs := awaited_emit states level scope s hin.1
    have hss := awaited_emitAll states level (emit states level scope s).2 ss hin.2
    rw [emitAll_cons, Statement.codesAll]
    simp only [List.mem_append, or_and_right, exists_or, ← or_assoc]
    rw [← hs]
    exact hss

end

/-! ### Lines that await -/

/-- The line is no comment and awaits. -/
def isLive (t : Text) : Bool := !Text.startsWith t "//" && awaits t

theorem isLive_of_isBareLine {t : Text} (h : isBareLine t = true) : isLive t = false := by
  unfold isBareLine at h
  simp only [Bool.or_eq_true, decide_eq_true_eq] at h
  rcases h with (h | rfl) | rfl
  · unfold isLive
    rw [h]
    rfl
  · decide +kernel
  · decide +kernel

theorem transform_of_not_lacks (states : List Text) {e : Text} (h : ¬ LacksAwait e) :
    (transform states e).1 = accessState states e := by
  have hsame : withAwaits e = e := withAwaitsFrom_eq_self_iff.mpr h
  show accessState states (withAwaits e) = _
  rw [hsame]

theorem startsWith_name {n : Text} (hn : Text.isName n = true) (t : Text) : Text.startsWith (n ++ t) "//" = false := by
  cases n with
  | nil => cases hn
  | cons c n =>
    have hc : ¬ '/' = c := by
      rintro rfl
      cases hn
    unfold Text.startsWith
    rw [List.cons_append]
    exact congrArg Option.isSome (if_neg hc)

/-- A line that starts with a name is no comment, and what stands before its value counts on its own. -/
theorem isLive_of_isName {n lead : Text} (hn : Text.isName n = true) (hlead : lead.all isInert = true) (t : Text) :
    isLive (n ++ lead ++ ' ' :: t) = (mentionsAwait [] (n ++ lead) || awaits t) := by
  have hinert : ∀ c ∈ n ++ lead ++ [' '], isInert c = true := by
    intro c hc
    rcases List.mem_append.mp hc with hc | hc
    · rcases List.mem_append.mp hc with hc | hc
      · exact isInert_of_isNamePart (isNamePart_of_mem_name hn c hc)
      · exact List.all_eq_true.mp hlead c hc
    · rw [List.mem_singleton.mp hc]
      decide
  have hawaits := awaits_prepend hinert (by decide) (by decide) t
  rw [List.append_assoc (n ++ lead), List.singleton_append] at hawaits
  have hcomment : Text.startsWith (n ++ lead ++ ' ' :: t) "//" = false := by
    rw [List.append_assoc]
    exact startsWith_name hn _
  rw [isLive, hcomment, hawaits]
  rfl

/-- `.value` behind the target mentions nothing new. -/
theorem mentionsAwait_value {n : Text} (hn : Text.isName n = true) :
    mentionsAwait [] (n ++ ".value =") = mentionsAwait [] (n ++ " =") := by
  have hends : ∀ c ∈ (" =" : Text).head?, Text.isNamePart c = false := by
    rintro c ⟨⟩
    decide
  have hinserted : Inserted BehindName [] (n ++ " =") (n ++ ".value =") :=
    keep_append n (.insert (w := ".value") ⟨⟨rfl, exists_head_of_isName hn []⟩, hends⟩ (.refl _ _))
  exact (mentionsAwait_inserted hinserted ⟨rfl, rfl⟩).symm

/-- **A line awaits where its source does**, when no await is inserted into it. -/
theorem WrittenFor.isLive_eq (hstates : ∀ n ∈ states, Text.isName n = true) {p : Text × Text} {t : Text}
    (h : WrittenFor states p t) (hlacks : ¬ LacksAwait p.2) : isLive t = isLive (p.1 ++ p.2) := by
  have hsame := transform_of_not_lacks states hlacks
  have hawaits : awaits (transform states p.2).1 = awaits p.2 := by
    rw [hsame, awaits_accessState hstates]
  have hsource : ∀ n e : Text, n ++ " = " ++ e = n ++ " =" ++ ' ' :: e := fun n e => by simp
  cases h with
  | plain e =>
    show (_ && awaits (transform states e).1) = (_ && awaits e)
    rw [hawaits, hsame, startsWith_accessState hstates, List.nil_append]
  | test e =>
    -- the brackets and the brace around the test are no parts of names, so they neither make nor break an `await`
    have hclose : ∀ c ∈ (") \x7b" : Text), isInert c = true ∧ Text.isNamePart c = false := by
      have hall : (") \x7b" : Text).all (fun c => isInert c && !Text.isNamePart c) = true := by decide
      simpa using List.all_eq_true.mp hall
    have hopen : awaits ("if (" ++ (transform states e).1) = awaits (transform states e).1 :=
      awaits_prepend (x := ("if " : Text)) (b := '(') (List.all_eq_true.mp (by decide)) (by decide) (by decide) _
    have hif : awaits ("if " ++ e) = awaits e :=
      awaits_prepend (x := ("if" : Text)) (b := ' ') (List.all_eq_true.mp (by decide)) (by decide) (by decide) _
    show awaits ("if (" ++ (transform states e).1 ++ ") \x7b") = awaits ("if " ++ e)
    rw [awaits_append hclose, hopen, hif]
    exact hawaits
  | @store n hn e =>
    have hline : n ++ ".value = " ++ (transform states e).1 = n ++ ".value =" ++ ' ' :: (transform states e).1 := by
      simp
    rw [hline, hsource, isLive_of_isName hn (by decide), isLive_of_isName hn (by decide), mentionsAwait_value hn,
      hawaits]
  | @assign n hn e =>
    rw [hsource, hsource, isLive_of_isName hn (by decide), isLive_of_isName hn (by decide), hawaits]
  | @introduce n hn e =>
    -- `let` stands before the name, and the blank behind it keeps the two apart
    have hline : "let " ++ n ++ " = " ++ (transform states e).1 =
        ("let" : Text) ++ (' ' :: (n ++ " =")) ++ ' ' :: (transform states e).1 := by
      simp
    have hinert : (' ' :: (n ++ " =")).all isInert = true := by
      have hname : n.all isInert = true :=
        List.all_eq_true.mpr fun c hc => isInert_of_isNamePart (isNamePart_of_mem_name hn c hc)
      rw [List.all_cons, List.all_append, hname]
      decide
    have hlet : mentionsAwait [] ("let" ++ ' ' :: (n ++ " =")) = mentionsAwait [] (n ++ " =") :=
      mentionsAwait_barrier (by decide) (by decide) [] "let" (n ++ " =")
    rw [hline, hsource, isLive_of_isName (by decide) hinert, isLive_of_isName hn (by decide), hlet, hawaits]

theorem WrittenFor.infix_transform {p : Text × Text} {t : Text} (h : WrittenFor states p t) :
    (transform states p.2).1 <:+: t := by
  cases h with
  | plain e => exact List.infix_rfl
  | test e => exact List.infix_append _ _ _
  | store hn e => exact (List.suffix_append _ _).isInfix
  | assign hn e => exact (List.suffix_append _ _).isInfix
  | introduce hn e => exact (List.suffix_append _ _).isInfix

end Code

namespace Component

open Code

/-- The header says `async` or not. -/
theorem startsWith_functionHeader (states : List Text) (f : FunctionDecl) :
    let awaited := (emitAll states 1 { declared := f.parameters } f.statements).2.awaited
    Text.startsWith (functionHeader states f) "async function " = awaited ∧
      Text.startsWith (functionHeader states f) "function " = !awaited := by
  intro awaited
  have hheader : functionHeader states f =
      (if awaited then ("async function " : Text) else "function ") ++ f.name ++ "(" ++ Text.join ", " f.parameters ++
        ") \x7b" := rfl
  rw [hheader]
  cases awaited <;> exact ⟨rfl, rfl⟩

/-- **When a function is asynchronous.**  Its header says `async` exactly when a call in its code lacks an `await`, and
then some line of its body holds the word.  Where the header does not say so, the body awaits exactly where the source
does: an `await` that is written in the source does not make the function asynchronous. -/
theorem functionLines_async {filename : Option Text} {source : Text} {f : FunctionDecl}
    (hf : f ∈ (Document.read filename source).script.functions) (states : List Text) :
    ∃ header body, functionLines states f = ⟨0, header⟩ :: body ++ [⟨0, "\x7d"⟩] ∧
      (Text.startsWith header "async function " = true ↔ ∃ p ∈ Statement.codesAll f.statements, LacksAwait p.2) ∧
      (Text.startsWith header "function " = true ↔ ¬ ∃ p ∈ Statement.codesAll f.statements, LacksAwait p.2) ∧
      ((∀ l ∈ body, ¬ ("await" : Text) <:+: l.text) → Text.startsWith header "function " = true) ∧
      ((∀ n ∈ states, Text.isName n = true) → Text.startsWith header "function " = true →
        ((∃ l ∈ body, isLive l.text = true) ↔
          ∃ p ∈ Statement.codesAll f.statements, isLive (p.1 ++ p.2) = true)) := by
  have hin := Document.allInFunction_of_mem_functions hf
  obtain ⟨hasync, hplain⟩ := startsWith_functionHeader states f
  have hawaited := awaited_emitAll states 1 { declared := f.parameters } f.statements hin
  have hcovers : Covers states (functionBody states f) (Statement.codesAll f.statements) :=
    covers_emitAll states 1 { declared := f.parameters } f.statements hin
  have hflag : Text.startsWith (functionHeader states f) "async function " = true ↔
      ∃ p ∈ Statement.codesAll f.statements, LacksAwait p.2 := by
    rw [hasync, hawaited]
    simp
  have hnot : Text.startsWith (functionHeader states f) "function " = true ↔
      ¬ ∃ p ∈ Statement.codesAll f.statements, LacksAwait p.2 := by
    rw [hplain, ← hflag, hasync, Bool.not_eq_true', Bool.not_eq_true]
  refine ⟨functionHeader states f, functionBody states f, functionLines_eq states f, hflag, hnot, fun hnone => ?_,
    fun hstates hheader => ?_⟩
  · -- a call that lacks its `await` gets it on some line of the body
    rw [hnot]
    rintro ⟨p, hp, hlacks⟩
    obtain ⟨l, hl, hwritten⟩ := hcovers.target p hp
    exact hnone l hl ((infix_transform states hlacks).trans hwritten.infix_transform)
  · -- no await is inserted, so each line is as live as the source it is written for
    have hkept : ∀ p ∈ Statement.codesAll f.statements, ¬ LacksAwait p.2 :=
      fun p hp hlacks => hnot.mp hheader ⟨p, hp, hlacks⟩
    constructor
    · rintro ⟨l, hl, hlive⟩
      rcases hcovers.source l hl with hbare | ⟨p, hp, hwritten⟩
      · rw [isLive_of_isBareLine hbare] at hlive
        cases hlive
      · exact ⟨p, hp, (hwritten.isLive_eq hstates (hkept p hp)).symm.trans hlive⟩
    · rintro ⟨p, hp, hlive⟩
      obtain ⟨l, hl, hwritten⟩ := hcovers.target p hp
      exact ⟨l, hl, (hwritten.isLive_eq hstates (hkept p hp)).trans hlive⟩

/-- A function that awaits where its source does, in a branch. -/
theorem functionLines_async_branch :
    ∃ f ∈ (Document.read none "fn load()\n  if ready\n    x = await fetch(ready)").script.functions,
      functionLines ["ready"] f = ⟨0, "function load() \x7b"⟩ :: [⟨1, "if (ready.value) \x7b"⟩,
        ⟨2, "let x = await fetch(ready.value)"⟩, ⟨1, "\x7d"⟩] ++ [⟨0, "\x7d"⟩] ∧
      (¬ ∃ p ∈ Statement.codesAll f.statements, LacksAwait p.2) ∧
      ∃ p ∈ Statement.codesAll f.statements, isLive (p.1 ++ p.2) = true := by
  have hall : (Document.read none "fn load()\n  if ready\n    x = await fetch(ready)").script.functions.map
      (functionLines ["ready"]) = [⟨0, "function load() \x7b"⟩ :: [⟨1, "if (ready.value) \x7b"⟩,
        ⟨2, "let x = await fetch(ready.value)"⟩, ⟨1, "\x7d"⟩] ++ [⟨0, "\x7d"⟩]] := by decide +kernel
  obtain ⟨f, hfunctions, hlines⟩ := List.map_eq_singleton_iff.mp hall
  have hf : f ∈ (Document.read none "fn load()\n  if ready\n    x = await fetch(ready)").script.functions := by
    rw [hfunctions]
    exact List.mem_singleton_self f
  obtain ⟨header, body, hparts, -, hplain, -, hlive⟩ := functionLines_async hf ["ready"]
  obtain ⟨hheader, hrest⟩ := List.cons.inj (hparts.symm.trans hlines)
  have hbody := (List.append_inj' hrest rfl).1
  have hname : ∀ n ∈ (["ready"] : List Text), Text.isName n = true := by decide +kernel
  have hstart : Text.startsWith header "function " = true := by
    rw [(CodeLine.mk.inj hheader).2]
    decide +kernel
  have hline : ∃ l ∈ body, isLive l.text = true := by
    rw [hbody]
    exact ⟨⟨2, "let x = await fetch(ready.value)"⟩, by decide +kernel, by decide +kernel⟩
  exact ⟨f, hf, hlines, hplain.mp hstart, (hlive hname hstart).mp hline⟩

/-- An `await` of the source in a function that is not asynchronous. -/
theorem source_await_not_async :
    (Document.read none "fn load()\n  x = await fetch(1)").script.functions.map (functionLines []) =
        [[⟨0, "function load() \x7b"⟩, ⟨1, "let x = await fetch(1)"⟩, ⟨0, "\x7d"⟩]] ∧
      isLive "let x = await fetch(1)" = true := by
  decide +kernel

end Component

end Trellis
