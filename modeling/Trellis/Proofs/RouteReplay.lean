import Trellis.Proofs.BlockLines
import Trellis.Proofs.Correspondence
import Trellis.Proofs.StateOrder
import Trellis.Proofs.StatementLines

/-!
# Route bodies are replayed

The code of a route is its body, line for line: a comment stays a comment, a `return` line answers with its remainder,
and any other line is written as it is.  Comments and `return` lines take no lines below them, so a body can be nested
quite differently from its indentation; the order of the lines is kept all the same, and the level of a line is the
number of plain statements around it.  Only a bare `return` ends the replay, as the lines behind it are a literal block.

* `ReturnLine` and `remainder` say what a `return` line is, and what it answers with.
* `Replays` follows the lines of a body, the statements read from them and the lines of code written for these.
-/

namespace Trellis.Statement

open Correspondence (routeLeaf)

/-! ### Return lines -/

/-- The line is a `return` line, and `rest` stands behind the word. -/
structure ReturnLine (l : BodyLine) (rest : Text) : Prop where
  no_comment : l.isComment = false
  code : l.code = "return" ++ rest
  word : ∀ c ∈ rest.head?, Text.isWord c = false
  one_line : '\n' ∉ rest

/-- A text without an equals sign in front of it.  Two are the start of an expression and stay. -/
def withoutEquals (t : Text) : Text :=
  if t.head? = some '=' ∧ t.tail.head? ≠ some '=' then Text.trim t.tail else t

/-- What a `return` line answers with: the text behind the word, without blanks around it, without an equals sign in
front and without the semicolons at its end. -/
def remainder (rest : Text) : Text := Text.trim (Text.trimEndOf ';' (withoutEquals (Text.trim rest)))

theorem withoutEquals_cons {t : Text} (h : t.head? ≠ some '=') : withoutEquals ('=' :: t) = Text.trim t :=
  if_pos ⟨rfl, h⟩

theorem withoutEquals_of_head {t : Text} (h : t.head? ≠ some '=') : withoutEquals t = t :=
  if_neg fun heq => h heq.1

theorem returnValue?_eq_some_iff {t value : Text} :
    returnValue? t = some value ↔
      ∃ rest : Text, t = "return" ++ rest ∧ (∀ c ∈ rest.head?, Text.isWord c = false) ∧ '\n' ∉ rest ∧
        remainder rest = value := by
  unfold returnValue?
  simp only [Option.bind_eq_bind, Option.bind_eq_some_iff, Text.after?_eq_some_iff]
  refine exists_congr fun rest => and_congr_right fun _ => ?_
  have hword : (rest.head?.map Text.isWord).getD false = true ↔ ¬ ∀ c ∈ rest.head?, Text.isWord c = false := by
    cases rest.head? <;> simp
  split
  · -- the word goes on, or the line is broken
    next h =>
    rw [Bool.or_eq_true, hword, List.contains_iff_mem] at h
    simp only [reduceCtorEq, false_iff]
    rintro ⟨hno, hline, -⟩
    exact h.elim (absurd hno) hline
  · next h =>
    rw [Bool.or_eq_true, hword, List.contains_iff_mem, not_or, not_not] at h
    rw [and_iff_right h.1, and_iff_right h.2, Option.some.injEq, remainder]
    split
    · -- an equals sign before the value is taken away
      next v hv => rw [hv]; rfl
    · next v hno hv =>
      have hhead : v.head? ≠ some '=' := by
        intro heq
        obtain ⟨r, rfl⟩ := List.head?_eq_some_iff.mp heq
        exact hno r rfl
      rw [hv, withoutEquals_cons hhead]
    · next hno =>
      have hhead : (Text.trim rest).head? ≠ some '=' := by
        intro heq
        obtain ⟨r, hr⟩ := List.head?_eq_some_iff.mp heq
        exact hno r hr
      rw [withoutEquals_of_head hhead]

section

variable {l : BodyLine}

theorem returnLine_of_value {value : Text} (hl : l.isComment = false) (h : returnValue? l.code = some value) :
    ∃ rest, ReturnLine l rest ∧ remainder rest = value := by
  obtain ⟨rest, hcode, hword, hline, hvalue⟩ := returnValue?_eq_some_iff.mp h
  exact ⟨rest, ⟨hl, hcode, hword, hline⟩, hvalue⟩

theorem ReturnLine.value {rest : Text} (h : ReturnLine l rest) : returnValue? l.code = some (remainder rest) :=
  returnValue?_eq_some_iff.mpr ⟨rest, h.code, h.word, h.one_line, rfl⟩

theorem not_returnLine (h : returnValue? l.code = none) (rest : Text) : ¬ ReturnLine l rest := by
  intro hrest
  rw [hrest.value] at h
  cases h

theorem isBareReturn_eq_false_iff : isBareReturn l = false ↔ ∀ rest, ReturnLine l rest → remainder rest ≠ [] := by
  rw [← Bool.not_eq_true, isBareReturn, Bool.and_eq_true, Bool.not_eq_true', decide_eq_true_iff]
  constructor
  · intro h rest hrest hnil
    exact h ⟨hrest.no_comment, hnil ▸ hrest.value⟩
  · rintro h ⟨hl, hvalue⟩
    obtain ⟨rest, hrest, hnil⟩ := returnLine_of_value hl hvalue
    exact h rest hrest hnil

end

/-! ### The code of a line -/

/-- The code that is written for a line of a route body. -/
inductive Replayed (l : BodyLine) : Text → Prop
  | comment (hl : l.isComment = true) : Replayed l (Text.trimEnd ("// " ++ Text.trim (l.text.drop 1)))
  | answer {rest : Text} (h : ReturnLine l rest) : Replayed l ("return res.json(" ++ remainder rest ++ ");")
  | code (hl : l.isComment = false) (hno : ∀ rest, ¬ ReturnLine l rest) : Replayed l l.code

theorem Replayed.ne_nil {l : BodyLine} {t : Text} (h : Replayed l t) (hl : l.text ≠ []) : t ≠ [] := by
  cases h with
  | comment =>
    obtain ⟨r, hr⟩ := Code.commentLine_text 0 (Text.trim (l.text.drop 1))
    have htext : Text.trimEnd ("// " ++ Text.trim (l.text.drop 1)) = "//" ++ r := hr
    rw [htext]
    exact List.cons_ne_nil _ _
  | answer h => exact List.cons_ne_nil _ _
  | code hcode hno =>
    have hempty := BodyLine.code_isEmpty hcode
    rw [List.isEmpty_eq_false_iff.mpr hl] at hempty
    exact List.isEmpty_eq_false_iff.mp hempty

/-- A line that is kept as it is. -/
def isRaw : Statement → Bool
  | .raw _ _ _ => true
  | _ => false

/-- The lines of a body in step with the statements at them and with the code written for them: `base` is the level of
the code for a statement with no plain statement around it. -/
inductive Replays (filename : Option Text) (base : Nat) :
    List BodyLine → List (Statement × List Statement) → List CodeLine → Prop
  | nil : Replays filename base [] [] []
  | cons {l : BodyLine} {v : Statement × List Statement} {x : CodeLine} {ls : List BodyLine}
      {vs : List (Statement × List Statement)} {xs : List CodeLine} (hplace : v.1.location = locate filename l)
      (htext : Replayed l x.text) (hlevel : x.level = base + v.2.countP isRaw) :
      Replays filename base ls vs xs → Replays filename base (l :: ls) (v :: vs) (x :: xs)

section

variable {filename : Option Text} {base : Nat} {l : BodyLine} {ls ms : List BodyLine}
  {vs us : List (Statement × List Statement)} {xs ys : List CodeLine}

theorem Replays.append (h : Replays filename base ls vs xs) (h' : Replays filename base ms us ys) :
    Replays filename base (ls ++ ms) (vs ++ us) (xs ++ ys) := by
  induction h with
  | nil => exact h'
  | cons hplace htext hlevel _ ih => exact .cons hplace htext hlevel ih

theorem Replays.exists_line (h : Replays filename base ls vs xs) {x : CodeLine} (hx : x ∈ xs) :
    ∃ l ∈ ls, Replayed l x.text := by
  induction h with
  | nil => cases hx
  | @cons l v y ls vs ys _ htext _ _ ih =>
    rcases List.mem_cons.mp hx with rfl | hx
    · exact ⟨l, List.mem_cons_self, htext⟩
    · obtain ⟨k, hk, hkx⟩ := ih hx
      exact ⟨k, List.mem_cons_of_mem l hk, hkx⟩

/-- A comment or a `return` line is one line of code. -/
theorem replays_leaf (block : Literal) (hl : routeLeaf l = true)
    (hbare : ∀ rest, ReturnLine l rest → remainder rest ≠ []) (above : List Statement) :
    Replays filename base [l] (preorder above (readRouteTree filename block (.node l [])))
      (Code.emitRoute (base + above.countP isRaw) (readRouteTree filename block (.node l []))) := by
  cases hcomment : l.isComment with
  | true =>
    rw [readRouteTree, if_pos hcomment, ofComment, preorder, Code.emitRoute]
    exact .cons rfl (.comment hcomment) rfl .nil
  | false =>
    have hsome : (returnValue? l.code).isSome = true := by
      simpa [routeLeaf, isReturn, hcomment] using hl
    obtain ⟨value, hvalue⟩ := Option.isSome_iff_exists.mp hsome
    obtain ⟨rest, hrest, rfl⟩ := returnLine_of_value hcomment hvalue
    obtain ⟨c, r, hr⟩ := List.exists_cons_of_ne_nil (hbare rest hrest)
    have hread : readRouteTree filename block (.node l []) = .respond (remainder rest) (locate filename l) := by
      rw [readRouteTree, if_neg (by simp [hcomment]), ofRouteLine, hvalue, hr]
    rw [hread, preorder, Code.emitRoute]
    exact .cons rfl (.answer hrest) rfl .nil

/-- Any other line is one line of code, and what stands below it is one level deeper. -/
theorem replays_raw (block : Literal) (hl : routeLeaf l = false) {below : List LineTree} {above : List Statement}
    (h : ∀ s, isRaw s = true → Replays filename base ls
      (preorderAll (s :: above) (readRouteForest filename block below))
      (Code.emitRouteAll (base + (s :: above).countP isRaw) (readRouteForest filename block below))) :
    Replays filename base (l :: ls) (preorder above (readRouteTree filename block (.node l below)))
      (Code.emitRoute (base + above.countP isRaw) (readRouteTree filename block (.node l below))) := by
  obtain ⟨hcomment, hreturn⟩ : l.isComment = false ∧ returnValue? l.code = none := by
    cases hcomment : l.isComment <;> simp_all [routeLeaf, isReturn]
  have hread : readRouteTree filename block (.node l below) =
      .raw l.code (readRouteForest filename block below) (locate filename l) := by
    rw [readRouteTree, if_neg (by simp [hcomment]), ofRouteLine, hreturn]
  have hbelow := h (.raw l.code (readRouteForest filename block below) (locate filename l)) rfl
  rw [List.countP_cons_of_pos rfl, ← Nat.add_assoc] at hbelow
  rw [hread, preorder, Code.emitRoute]
  exact .cons rfl (.code hcomment (not_returnLine hreturn)) rfl hbelow

theorem replays_nest (filename : Option Text) (base : Nat) (block : Literal) (lines : List BodyLine)
    (hbare : ∀ l ∈ lines, ∀ rest, ReturnLine l rest → remainder rest ≠ []) (above : List Statement) :
    Replays filename base lines
      (preorderAll above (readRouteForest filename block (LineTree.nest routeLeaf lines)))
      (Code.emitRouteAll (base + above.countP isRaw)
        (readRouteForest filename block (LineTree.nest routeLeaf lines))) := by
  induction lines using LineTree.nest.induct routeLeaf generalizing above with
  | case1 =>
    rw [LineTree.nest_nil, readRouteForest, preorderAll, Code.emitRouteAll]
    exact .nil
  | case2 l ls hl ih =>
    -- a comment or a response
    obtain ⟨hbl, hbls⟩ := List.forall_mem_cons.mp hbare
    rw [LineTree.nest_leaf hl, readRouteForest, preorderAll, Code.emitRouteAll]
    exact (replays_leaf block hl hbl above).append (ih hbls above)
  | case3 l ls hl ihTake ihDrop =>
    -- a line of code: the lines below it are read one level deeper
    have hbls := (List.forall_mem_cons.mp hbare).2
    have htake := ihTake fun k hk => hbls k ((List.takeWhile_sublist _).mem hk)
    have hdrop := ihDrop fun k hk => hbls k ((List.dropWhile_sublist _).mem hk)
    have hraw := replays_raw block (by simpa using hl) fun s _ => htake (s :: above)
    have hlines : l :: ls = (l :: ls.takeWhile fun x => decide (l.indent < x.indent)) ++
        ls.dropWhile fun x => decide (l.indent < x.indent) := by
      rw [List.cons_append, List.takeWhile_append_dropWhile]
    rw [LineTree.nest_inner (by simpa using hl), readRouteForest, preorderAll, Code.emitRouteAll, hlines]
    exact hraw.append (hdrop above)

end

/-! ### Bodies -/

/-- Without a bare `return` the whole body is code. -/
theorem cutAtReturn_eq_self {lines : List BodyLine} (hpos : ∀ l ∈ lines, 0 ≤ l.indent)
    (hbare : ∀ l ∈ lines, isBareReturn l = false) : cutAtReturn lines = (lines, []) := by
  induction lines with
  | nil => rfl
  | cons l ls ih =>
    obtain ⟨hl, hls⟩ := List.forall_mem_cons.mp hpos
    obtain ⟨hbl, hbls⟩ := List.forall_mem_cons.mp hbare
    rw [cutAtReturn, if_neg (by omega), if_neg (by simp [hbl]), ih hls hbls]

/-- **A route body is replayed line for line.**  Where no line is a bare `return`, there is one line of code for each
line of the body, in the same order: the comment, the answer with the remainder of a `return` line, or the code of the
line.  It is indented by as many levels as plain statements stand around the statement of the line. -/
theorem emitRoute_replays (filename : Option Text) (lines : List BodyLine) (level : Nat)
    (hblank : ∀ l ∈ lines, l.text ≠ []) (hpos : ∀ l ∈ lines, 0 ≤ l.indent)
    (hbare : ∀ l ∈ lines, ∀ rest, ReturnLine l rest → remainder rest ≠ []) :
    Replays filename level lines (preorderAll [] (readRouteBody filename lines).1)
        (Code.emitRouteAll level (readRouteBody filename lines).1) ∧
      ∀ size, ∀ x ∈ Code.emitRouteAll level (readRouteBody filename lines).1,
        x.render size = Text.spaces (x.level * size) ++ x.text := by
  have hcut := cutAtReturn_eq_self hpos fun l hl => isBareReturn_eq_false_iff.mpr (hbare l hl)
  have hbody : (readRouteBody filename lines).1 =
      readRouteForest filename (Literal.readBlock []).1.tree (LineTree.nest routeLeaf lines) := by
    unfold readRouteBody
    rw [hcut]
    rfl
  have hreplays := replays_nest filename level (Literal.readBlock []).1.tree lines hbare []
  rw [List.countP_nil, Nat.add_zero, ← hbody] at hreplays
  refine ⟨hreplays, fun size x hx => ?_⟩
  obtain ⟨l, hl, htext⟩ := hreplays.exists_line hx
  rw [CodeLine.render, if_neg]
  rw [List.isEmpty_iff]
  exact htext.ne_nil (hblank l hl)

/-- A body whose lines stand deeper behind a comment and behind a `return` line, and less deep at its end. -/
theorem emitRoute_replays_deeper :
    let lines : List BodyLine :=
      [⟨1, 4, "    if (a) \x7b"⟩, ⟨2, 6, "      # why"⟩, ⟨3, 8, "        log(a) # now"⟩, ⟨4, 6, "      return = a;"⟩,
        ⟨5, 8, "        b()"⟩, ⟨6, 9, "         c()"⟩, ⟨7, 2, "  \x7d"⟩]
    let code := Code.emitRouteAll 0 (readRouteBody none lines).1
    (∀ l ∈ lines, l.text ≠ [] ∧ 0 ≤ l.indent ∧ isBareReturn l = false) ∧
      Replays none 0 lines (preorderAll [] (readRouteBody none lines).1) code ∧
      code = [⟨0, "if (a) \x7b"⟩, ⟨1, "// why"⟩, ⟨1, "log(a)"⟩, ⟨1, "return res.json(a);"⟩, ⟨1, "b()"⟩, ⟨2, "c()"⟩,
        ⟨0, "\x7d"⟩] := by
  intro lines code
  have hlines : ∀ l ∈ lines, l.text ≠ [] ∧ 0 ≤ l.indent ∧ isBareReturn l = false := by decide +kernel
  have hreplays := emitRoute_replays none lines 0 (fun l hl => (hlines l hl).1) (fun l hl => (hlines l hl).2.1)
    fun l hl => isBareReturn_eq_false_iff.mp (hlines l hl).2.2
  exact ⟨hlines, hreplays.1, by decide +kernel⟩

end Trellis.Statement
