import Mathlib.Data.List.TakeWhile
import Trellis.Proofs.FunctionBodies

/-!
# Comment lines in function bodies

A comment line directly above a line of the same indentation becomes one comment of the statement tree, and the rest of
the tree stays as it is, unless the line below it is an `else` that joins a condition.  The comment then stands between
the two: the condition loses its `else` part, which is left behind the comment as a plain statement.  Which of the two
happens is known from the lines up to the `else`: it joins a condition exactly when it adds no statement of its own.

The proof follows the line from the forest of the lines (`LineTree.Around`) to the statements (`Within`); what stands
around a body is a `Frame`.
-/

namespace Trellis

namespace LineTree

/-! ### The place of a line in the forest -/

/-- Four forests around the line `l`: of the lines before it, of the lines up to it, of the whole body, and of the body
with the comment line `c` directly above `l`. -/
inductive Around (c l : BodyLine) : List LineTree → List LineTree → List LineTree → List LineTree → Prop
  | here (below behind : List LineTree) :
      Around c l [] [.node l []] (.node l below :: behind) (.node c [] :: .node l below :: behind)
  | next (t : LineTree) {before upto plain commented : List LineTree} : Around c l before upto plain commented →
      Around c l (t :: before) (t :: upto) (t :: plain) (t :: commented)
  | inner {k : BodyLine} (hk : k.isComment = false) (behind : List LineTree)
      {before upto plain commented : List LineTree} : Around c l before upto plain commented →
      Around c l [.node k before] [.node k upto] (.node k plain :: behind) (.node k commented :: behind)

variable {c l : BodyLine} {before upto plain commented : List LineTree}

theorem Around.ne_nil (h : Around c l before upto plain commented) : plain ≠ [] ∧ commented ≠ [] := by
  cases h <;> exact ⟨List.cons_ne_nil _ _, List.cons_ne_nil _ _⟩

theorem nest_nil (leaf : BodyLine → Bool) : nest leaf [] = [] := by
  rw [nest]

theorem nest_leaf {leaf : BodyLine → Bool} {l : BodyLine} (h : leaf l = true) (ls : List BodyLine) :
    nest leaf (l :: ls) = .node l [] :: nest leaf ls := by
  rw [nest, if_pos h]

theorem nest_inner {leaf : BodyLine → Bool} {l : BodyLine} (h : leaf l = false) (ls : List BodyLine) :
    nest leaf (l :: ls) =
      .node l (nest leaf (ls.takeWhile fun x => l.indent < x.indent)) ::
        nest leaf (ls.dropWhile fun x => l.indent < x.indent) := by
  rw [nest, if_neg (by simp [h])]

/-- A run that ends before `y` does not look past it. -/
theorem takeWhile_append_of_stop {α : Type} {p : α → Bool} {xs : List α} {y : α}
    (h : ¬ ((∀ x ∈ xs, p x = true) ∧ p y = true)) (ys : List α) :
    (xs ++ y :: ys).takeWhile p = xs.takeWhile p ∧ (xs ++ y :: ys).dropWhile p = xs.dropWhile p ++ y :: ys := by
  induction xs with
  | nil =>
    have hy : ¬ p y = true := fun hy => h ⟨by simp, hy⟩
    simp [hy]
  | cons x xs ih =>
    by_cases hx : p x = true
    · have hstop : ¬ ((∀ x ∈ xs, p x = true) ∧ p y = true) := fun hall => h ⟨by simpa [hx] using hall.1, hall.2⟩
      obtain ⟨htake, hdrop⟩ := ih hstop
      simp [hx, htake, hdrop]
    · simp [hx]

/-- The comment line is put directly before the tree of the line below it. -/
theorem around_nest (hc : c.isComment = true) (hl : l.isComment = false) (hindent : c.indent = l.indent)
    (pre post : List BodyLine) :
    Around c l (nest BodyLine.isComment pre) (nest BodyLine.isComment (pre ++ [l]))
      (nest BodyLine.isComment (pre ++ l :: post)) (nest BodyLine.isComment (pre ++ c :: l :: post)) := by
  induction pre using nest.induct BodyLine.isComment generalizing post with
  | case1 =>
    rw [List.nil_append, List.nil_append, List.nil_append, nest_nil, nest_leaf hc, nest_inner hl, nest_inner hl]
    simp only [List.takeWhile_nil, List.dropWhile_nil, nest_nil]
    exact .here _ _
  | case2 k pre hk ih =>
    rw [List.cons_append, List.cons_append, List.cons_append, nest_leaf hk, nest_leaf hk, nest_leaf hk, nest_leaf hk]
    exact .next _ (ih post)
  | case3 k pre hk ihTake ihDrop =>
    have hk' : k.isComment = false := by simpa using hk
    rw [List.cons_append, List.cons_append, List.cons_append, nest_inner hk', nest_inner hk', nest_inner hk',
      nest_inner hk']
    by_cases hin : (∀ x ∈ pre, decide (k.indent < x.indent) = true) ∧ decide (k.indent < l.indent) = true
    · -- everything up to `l` stands below `k`
      obtain ⟨hall, hdeep⟩ := hin
      have hdeep' : decide (k.indent < c.indent) = true := by rw [hindent]; exact hdeep
      have htake := ihTake (post.takeWhile fun x => k.indent < x.indent)
      rw [List.takeWhile_eq_self_iff.mpr hall] at htake
      have hnone : pre.dropWhile (fun x => decide (k.indent < x.indent)) = [] := List.dropWhile_eq_nil_iff.mpr hall
      simp only [List.takeWhile_append_of_pos hall, List.dropWhile_append_of_pos hall,
        List.takeWhile_eq_self_iff.mpr hall, hnone, List.takeWhile_cons, List.dropWhile_cons, List.takeWhile_nil,
        List.dropWhile_nil, hdeep, hdeep', if_true, nest_nil]
      exact .inner hk' _ htake
    · -- `k` and what stands below it are done before `l`
      have hin' : ¬ ((∀ x ∈ pre, decide (k.indent < x.indent) = true) ∧ decide (k.indent < c.indent) = true) := by
        rw [hindent]
        exact hin
      rw [(takeWhile_append_of_stop hin _).1, (takeWhile_append_of_stop hin _).2, (takeWhile_append_of_stop hin _).1,
        (takeWhile_append_of_stop hin _).2, (takeWhile_append_of_stop hin' _).1, (takeWhile_append_of_stop hin' _).2]
      exact .next _ (ihDrop post)

end LineTree

namespace Statement

/-! ### Places in a statement tree -/

/-- A statement without one of its bodies. -/
inductive Frame where
  | raw (text : Text) (location : Location)
  | assign (target value : Text) (location : Location)
  | thenPart (condition : Text) (orelse : List Statement) (location : Location)
  | elsePart (condition : Text) (body : List Statement) (location : Location)

/-- The statement with its body in place. -/
def Frame.fill : Frame → List Statement → Statement
  | .raw text location, b => .raw text b location
  | .assign target value location, b => .assign target value b location
  | .thenPart condition orelse location, b => .cond condition b orelse location
  | .elsePart condition body location, b => .cond condition body b location

/-- One block of a tree, at any depth, is changed as `R` says, and everything else is kept. -/
inductive Within (R : List Statement → List Statement → Prop) : List Statement → List Statement → Prop
  | here {ss ss' : List Statement} : R ss ss' → Within R ss ss'
  | next (s : Statement) {ss ss' : List Statement} : Within R ss ss' → Within R (s :: ss) (s :: ss')
  | inside (f : Frame) (ss : List Statement) {b b' : List Statement} : Within R b b' →
      Within R (f.fill b :: ss) (f.fill b' :: ss)

/-- A remark is put before the statements. -/
def Added (remark : Statement) (ss ss' : List Statement) : Prop := ss' = remark :: ss

/-- A remark parts a condition from its `else` part, whose lines are left behind the remark as plain statements. -/
inductive Detached (remark : Statement) : List Statement → List Statement → Prop
  | mk (condition : Text) (body : List Statement) (location : Location) (elses : List (List Statement × Location))
      (ss : List Statement) (h : elses ≠ []) :
      Detached remark (.cond condition body (elses.flatMap (·.1)) location :: ss)
        (.cond condition body [] location :: remark :: (elses.map fun e => .raw "else" e.1 e.2) ++ ss)

mutual

/-- The number of statements in a statement, itself included. -/
def count : Statement → Nat
  | .comment _ _ | .respond _ _ | .respondBlock _ _ => 1
  | .raw _ body _ | .assign _ _ body _ => countAll body + 1
  | .cond _ body orelse _ => countAll body + countAll orelse + 1

/-- The number of statements in a list of statements, at all depths. -/
def countAll : List Statement → Nat
  | [] => 0
  | s :: ss => count s + countAll ss

end

theorem countAll_append (ss us : List Statement) : countAll (ss ++ us) = countAll ss + countAll us := by
  induction ss with
  | nil => simp [countAll]
  | cons s ss ih => simp only [List.cons_append, countAll, ih, Nat.add_assoc]

theorem Frame.count_fill (f : Frame) : ∃ n, ∀ b, count (f.fill b) = n + countAll b := by
  cases f with
  | raw => exact ⟨1, fun b => by rw [fill, count, Nat.add_comm]⟩
  | assign => exact ⟨1, fun b => by rw [fill, count, Nat.add_comm]⟩
  | thenPart _ orelse _ => exact ⟨countAll orelse + 1, fun b => by rw [fill, count]; omega⟩
  | elsePart _ body _ => exact ⟨countAll body + 1, fun b => by rw [fill, count]; omega⟩

section

variable {R : List Statement → List Statement → Prop} {ss ss' : List Statement}

theorem Within.append (kept : List Statement) (h : Within R ss ss') : Within R (kept ++ ss) (kept ++ ss') := by
  induction kept with
  | nil => exact h
  | cons s kept ih => exact .next s ih

/-- A tree grows by as many statements as the changed block. -/
theorem Within.count_add {D : Nat → Prop} (hR : ∀ ss ss', R ss ss' → ∃ d, D d ∧ countAll ss' = countAll ss + d)
    (h : Within R ss ss') : ∃ d, D d ∧ countAll ss' = countAll ss + d := by
  induction h with
  | here h => exact hR _ _ h
  | next s _ ih =>
    obtain ⟨d, hd, heq⟩ := ih
    refine ⟨d, hd, ?_⟩
    rw [countAll, countAll, heq, Nat.add_assoc]
  | inside f ss _ ih =>
    obtain ⟨d, hd, heq⟩ := ih
    obtain ⟨n, hn⟩ := f.count_fill
    refine ⟨d, hd, ?_⟩
    rw [countAll, countAll, hn, hn, heq]
    omega

theorem countAll_elses (elses : List (List Statement × Location)) :
    countAll (elses.map fun e => .raw "else" e.1 e.2) = countAll (elses.flatMap (·.1)) + elses.length := by
  induction elses with
  | nil => rfl
  | cons e elses ih =>
    simp only [List.map_cons, List.flatMap_cons, List.length_cons, countAll, count, countAll_append, ih]
    omega

theorem Within.count_added {text : Text} {location : Location} (h : Within (Added (.comment text location)) ss ss') :
    countAll ss' = countAll ss + 1 := by
  have hone : ∃ d, d = 1 ∧ countAll ss' = countAll ss + d := by
    refine h.count_add fun us us' ha => ⟨1, rfl, ?_⟩
    rw [ha, countAll, count, Nat.add_comm]
  obtain ⟨d, rfl, heq⟩ := hone
  exact heq

/-- A tree with a parted condition is no tree with a single remark added. -/
theorem Within.not_added {text : Text} {location : Location} (h : Within (Detached (.comment text location)) ss ss') :
    ¬ Within (Added (.comment text location)) ss ss' := by
  intro hadded
  have htwo : ∃ d, 2 ≤ d ∧ countAll ss' = countAll ss + d := by
    refine h.count_add fun us us' hd => ?_
    cases hd with
    | mk condition body location elses ss helses =>
      refine ⟨elses.length + 1, Nat.succ_le_succ (List.length_pos_iff.mpr helses), ?_⟩
      simp only [List.cons_append, countAll, count, countAll_append, countAll_elses]
      omega
  obtain ⟨d, hd, heq⟩ := htwo
  have hone := hadded.count_added
  omega

end

/-! ### Lines and frames -/

section

variable {filename : Option Text} {c l k : BodyLine}

theorem ofLine_fill (filename : Option Text) (l : BodyLine) : ∃ f : Frame, ∀ b, ofLine filename l b = f.fill b := by
  unfold ofLine
  cases ifCondition? l.code with
  | some condition => exact ⟨.thenPart condition [] (locate filename l), fun _ => rfl⟩
  | none =>
    cases assignment? l.code with
    | some p => exact ⟨.assign p.1 p.2 (locate filename l), fun _ => rfl⟩
    | none => exact ⟨.raw l.code (locate filename l), fun _ => rfl⟩

theorem count_ofLine (filename : Option Text) (l : BodyLine) : count (ofLine filename l []) = 1 := by
  unfold ofLine
  cases ifCondition? l.code with
  | some condition => rfl
  | none => cases assignment? l.code <;> rfl

theorem ofLine_else (h : l.code = "else") (b : List Statement) :
    ofLine filename l b = .raw "else" b (locate filename l) := by
  have hif : ifCondition? "else" = none := by decide +kernel
  have hassign : assignment? "else" = none := by decide +kernel
  unfold ofLine
  rw [h, hif, hassign]

/-- A line of code is read into a frame around what stands below it. -/
theorem readForest_node (filename : Option Text) (hk : k.isComment = false) (previous : Option Statement) :
    ∃ (kept : List Statement) (f : Frame), ∀ below ts : List LineTree,
      readForest filename previous (.node k below :: ts) =
        kept ++ readForest filename (some (f.fill (readForest filename none below))) ts := by
  rcases joinElse?_cases previous k with ⟨condition, b, location, -, -, hjoin⟩ | hnone
  · exact ⟨[], .elsePart condition b location, fun below ts => readForest_joined hk (hjoin _) ts⟩
  · obtain ⟨f, hf⟩ := ofLine_fill filename k
    refine ⟨previous.toList, f, fun below ts => ?_⟩
    rw [readForest_own hk (hnone _), hf]

/-- A tree of the forest is done before the trees behind it. -/
theorem readForest_step (filename : Option Text) (previous : Option Statement) (t : LineTree) :
    ∃ (kept : List Statement) (s : Statement), ∀ ts,
      readForest filename previous (t :: ts) = kept ++ readForest filename (some s) ts := by
  obtain ⟨k, below⟩ := t
  cases hk : k.isComment with
  | true => exact ⟨_, _, fun ts => readForest_comment hk below ts⟩
  | false =>
    obtain ⟨kept, f, hread⟩ := readForest_node filename hk previous
    exact ⟨kept, _, fun ts => hread below ts⟩

theorem readForest_ne_nil (filename : Option Text) (s : Statement) (ts : List LineTree) :
    readForest filename (some s) ts ≠ [] := by
  induction ts generalizing s with
  | nil => exact List.cons_ne_nil _ _
  | cons t ts ih =>
    obtain ⟨kept, s', hread⟩ := readForest_step filename (some s) t
    rw [hread]
    exact fun hnil => ih s' (List.append_eq_nil_iff.mp hnil).2

theorem readForest_none_ne_nil (filename : Option Text) {ts : List LineTree} (h : ts ≠ []) :
    readForest filename none ts ≠ [] := by
  obtain ⟨t, ts, rfl⟩ := List.exists_cons_of_ne_nil h
  obtain ⟨kept, s, hread⟩ := readForest_step filename none t
  rw [hread]
  exact fun hnil => readForest_ne_nil filename s ts (List.append_eq_nil_iff.mp hnil).2

/-- Whether a line joins a statement does not hang on a body of that statement, as long as it is not empty. -/
theorem joinElse?_fill (f : Frame) (l : BodyLine) (body : List Statement) :
    (∃ g : Frame, ∀ b, b ≠ [] → joinElse? (some (f.fill b)) l body = some (g.fill b)) ∨
      ∀ b, b ≠ [] → joinElse? (some (f.fill b)) l body = none := by
  by_cases hl : l.code = "else"
  · unfold joinElse?
    simp only [if_pos hl]
    cases f with
    | raw => exact .inr fun _ _ => rfl
    | assign => exact .inr fun _ _ => rfl
    | elsePart =>
      refine .inr fun b hb => ?_
      obtain ⟨s, ss, rfl⟩ := List.exists_cons_of_ne_nil hb
      rfl
    | thenPart condition orelse location =>
      cases orelse with
      | nil => exact .inl ⟨.thenPart condition body location, fun _ _ => rfl⟩
      | cons => exact .inr fun _ _ => rfl
  · exact .inr fun _ _ => if_neg hl

/-- What follows a statement does not look into a body of it that is not empty. -/
theorem readForest_fill (filename : Option Text) (f : Frame) (ts : List LineTree) :
    ∃ (g : Frame) (rest : List Statement), ∀ b, b ≠ [] →
      readForest filename (some (f.fill b)) ts = g.fill b :: rest := by
  induction ts generalizing f with
  | nil => exact ⟨f, [], fun _ _ => rfl⟩
  | cons t ts ih =>
    obtain ⟨k, below⟩ := t
    cases hk : k.isComment with
    | true => exact ⟨f, _, fun b _ => readForest_comment hk below ts⟩
    | false =>
      rcases joinElse?_fill f k (readForest filename none below) with ⟨g, hjoin⟩ | hnone
      · obtain ⟨g', rest, hread⟩ := ih g
        refine ⟨g', rest, fun b hb => ?_⟩
        rw [readForest_joined hk (hjoin b hb), hread b hb]
      · exact ⟨f, _, fun b hb => readForest_own hk (hnone b hb) ts⟩

/-- The lines behind an `else` go on in the same way whether it joined its condition or stands as a plain line; while
nothing stands below it, an `else` that follows it is parted from the condition as well. -/
theorem readForest_else (filename : Option Text) (condition : Text) (body b : List Statement) (location m : Location)
    (ts : List LineTree) :
    ∃ (elses : List (List Statement × Location)) (rest : List Statement), elses ≠ [] ∧
      readForest filename (some (.cond condition body b location)) ts =
        .cond condition body (elses.flatMap (·.1)) location :: rest ∧
      readForest filename (some (.raw "else" b m)) ts = (elses.map fun e => .raw "else" e.1 e.2) ++ rest := by
  induction ts generalizing b m with
  | nil => exact ⟨[(b, m)], [], List.cons_ne_nil _ _, by simp [readForest], rfl⟩
  | cons t ts ih =>
    obtain ⟨k, below⟩ := t
    cases hk : k.isComment with
    | true =>
      -- a comment ends the chain of `else` lines
      refine ⟨[(b, m)], _, List.cons_ne_nil _ _, ?_, readForest_comment hk below ts⟩
      rw [readForest_comment hk]
      simp
    | false =>
      have hraw : joinElse? (some (.raw "else" b m)) k (readForest filename none below) = none := ite_self none
      rcases joinElse?_cases (some (.cond condition body b location)) k with ⟨_, _, _, heq, hcode, hjoin⟩ | hnone
      · -- an `else` directly behind this one: it joins in the first forest, and is plain again in the second
        cases heq
        obtain ⟨elses, rest, -, hcond, helse⟩ := ih (readForest filename none below) (locate filename k)
        refine ⟨([], m) :: elses, rest, List.cons_ne_nil _ _, ?_, ?_⟩
        · rw [readForest_joined hk (hjoin _), hcond]
          rfl
        · rw [readForest_own hk hraw, ofLine_else hcode, helse]
          rfl
      · -- any other line stands alone in both forests
        refine ⟨[(b, m)], _, List.cons_ne_nil _ _, ?_, readForest_own hk hraw ts⟩
        rw [readForest_own hk (hnone _)]
        simp

/-! ### The comment above a line -/

/-- A comment line directly above `l` in a forest: either `l` joins a condition that the comment parts from it, or `l`
is a statement of its own and the comment is put somewhere before it. -/
theorem readForest_around (filename : Option Text) {before upto plain commented : List LineTree}
    (hc : c.isComment = true) (hl : l.isComment = false) (h : LineTree.Around c l before upto plain commented)
    (previous : Option Statement) :
    (countAll (readForest filename previous upto) = countAll (readForest filename previous before) ∧
        l.code = "else" ∧
        Within (Detached (ofComment filename c)) (readForest filename previous plain)
          (readForest filename previous commented)) ∨
      (countAll (readForest filename previous upto) = countAll (readForest filename previous before) + 1 ∧
        Within (Added (ofComment filename c)) (readForest filename previous plain)
          (readForest filename previous commented)) := by
  induction h generalizing previous with
  | here below behind =>
    -- behind the comment no `else` joins, whatever `previous` is
    rw [readForest_comment hc]
    have hremark : joinElse? (some (ofComment filename c)) l (readForest filename none below) = none := ite_self none
    rw [readForest_own hl hremark]
    rcases joinElse?_cases previous l with ⟨condition, b, location, rfl, hcode, hjoin⟩ | hnone
    · obtain ⟨elses, rest, hne, hcond, helse⟩ := readForest_else filename condition b
        (readForest filename none below) location (locate filename l) behind
      refine .inl ⟨?_, hcode, ?_⟩
      · rw [readForest_joined hl (hjoin _)]
        rfl
      · rw [readForest_joined hl (hjoin _), hcond, ofLine_else hcode, helse]
        exact .here (.mk condition b location elses rest hne)
    · refine .inr ⟨?_, ?_⟩
      · rw [readForest_own hl (hnone _), countAll_append]
        exact congrArg (countAll previous.toList + ·) (count_ofLine filename l)
      · rw [readForest_own hl (hnone _)]
        exact Within.append previous.toList (.here rfl)
  | next t _ ih =>
    obtain ⟨kept, s, hread⟩ := readForest_step filename previous t
    rw [hread, hread, hread, hread, countAll_append, countAll_append]
    rcases ih (some s) with ⟨hcount, hcode, hwithin⟩ | ⟨hcount, hwithin⟩
    · exact .inl ⟨by rw [hcount], hcode, hwithin.append kept⟩
    · exact .inr ⟨by rw [hcount, Nat.add_assoc], hwithin.append kept⟩
  | inner hk behind h ih =>
    -- the node's own line fixes a frame, and what follows the node can only change that frame, not its body
    obtain ⟨kept, f, hread⟩ := readForest_node filename hk previous
    obtain ⟨g, rest, hfill⟩ := readForest_fill filename f behind
    obtain ⟨hplain, hcommented⟩ := h.ne_nil
    obtain ⟨n, hn⟩ := f.count_fill
    rw [hread, hread, hread, hread, hfill _ (readForest_none_ne_nil filename hplain),
      hfill _ (readForest_none_ne_nil filename hcommented), countAll_append, countAll_append]
    have hcounts : ∀ ts : List LineTree,
        countAll (readForest filename (some (f.fill (readForest filename none ts))) []) =
          n + countAll (readForest filename none ts) := by
      intro ts
      rw [readForest]
      simp only [Option.toList_some, countAll, hn, Nat.add_zero]
    rw [hcounts, hcounts]
    rcases ih none with ⟨hcount, hcode, hwithin⟩ | ⟨hcount, hwithin⟩
    · exact .inl ⟨by rw [hcount], hcode, Within.append kept (.inside g rest hwithin)⟩
    · exact .inr ⟨by omega, Within.append kept (.inside g rest hwithin)⟩

end

theorem reachable_of_nonneg {lines : List BodyLine} (h : ∀ x ∈ lines, 0 ≤ x.indent) : reachable lines = lines := by
  refine List.takeWhile_eq_self_iff.mpr fun x hx => decide_eq_true ?_
  have := h x hx
  omega

/-- The line behind `pre` joins a condition: with it the body has no more statements than without. -/
def Joins (filename : Option Text) (pre : List BodyLine) (l : BodyLine) : Prop :=
  countAll (readBody filename (pre ++ [l])) = countAll (readBody filename pre)

/-- **A comment line in a function body**, directly above a line of code of the same indentation: one comment is added
to the tree and nothing else changes, exactly when the line below does not join a condition.  A line that does is an
`else`, and the comment parts it from its condition. -/
theorem readBody_comment_line (filename : Option Text) (pre post : List BodyLine) (c l : BodyLine)
    (hc : c.isComment = true) (hl : l.isComment = false) (hindent : c.indent = l.indent)
    (hpos : ∀ x ∈ pre ++ l :: post, 0 ≤ x.indent) :
    (Within (Added (ofComment filename c)) (readBody filename (pre ++ l :: post))
        (readBody filename (pre ++ c :: l :: post)) ↔ ¬ Joins filename pre l) ∧
      (Joins filename pre l → l.code = "else" ∧
        Within (Detached (ofComment filename c)) (readBody filename (pre ++ l :: post))
          (readBody filename (pre ++ c :: l :: post))) := by
  have hl0 : 0 ≤ l.indent := hpos l (by simp)
  have hpre : reachable pre = pre := reachable_of_nonneg fun x hx => hpos x (by simp [hx])
  have hupto : reachable (pre ++ [l]) = pre ++ [l] := by
    refine reachable_of_nonneg fun x hx => hpos x ?_
    simp only [List.mem_append, List.mem_singleton] at hx
    rcases hx with hx | rfl <;> simp [*]
  have hplain : reachable (pre ++ l :: post) = pre ++ l :: post := reachable_of_nonneg hpos
  -- the comment is indented as the line below it, so it is reached as well
  have hcommented : reachable (pre ++ c :: l :: post) = pre ++ c :: l :: post := by
    refine reachable_of_nonneg fun x hx => ?_
    simp only [List.mem_append, List.mem_cons] at hx
    rcases hx with hx | rfl | hx
    · exact hpos x (by simp [hx])
    · rw [hindent]
      exact hl0
    · exact hpos x (by simp [hx])
  unfold Joins readBody
  rw [hpre, hupto, hplain, hcommented]
  rcases readForest_around filename hc hl (LineTree.around_nest hc hl hindent pre post) none with
    ⟨hcount, hcode, hdetached⟩ | ⟨hcount, hadded⟩
  · -- the line joins a condition, and the comment detaches it
    exact ⟨iff_of_false hdetached.not_added fun hno => hno hcount, fun _ => ⟨hcode, hdetached⟩⟩
  · refine ⟨iff_of_true hadded (by omega), fun hjoins => ?_⟩
    omega

/-- A comment above the second line of a branch. -/
theorem readBody_comment_line_branch :
    let pre : List BodyLine := [⟨1, 0, "if a"⟩, ⟨2, 2, "  x = 1"⟩]
    let post : List BodyLine := [⟨5, 0, "else"⟩, ⟨6, 2, "  z = 3"⟩]
    ¬ Joins none pre ⟨4, 2, "  y = 2"⟩ ∧
      Within (Added (.comment "c" ⟨3, 3, none⟩)) (readBody none (pre ++ ⟨4, 2, "  y = 2"⟩ :: post))
        (readBody none (pre ++ ⟨3, 2, "  # c"⟩ :: ⟨4, 2, "  y = 2"⟩ :: post)) := by
  intro pre post
  have hown : ¬ Joins none pre ⟨4, 2, "  y = 2"⟩ := by
    unfold Joins
    decide +kernel
  have hcomment : BodyLine.isComment ⟨3, 2, "  # c"⟩ = true := by decide +kernel
  have hcode : BodyLine.isComment ⟨4, 2, "  y = 2"⟩ = false := by decide +kernel
  have hpos : ∀ x ∈ pre ++ ⟨4, 2, "  y = 2"⟩ :: post, 0 ≤ x.indent := by decide +kernel
  have hadded := (readBody_comment_line none pre post _ _ hcomment hcode rfl hpos).1.mpr hown
  exact ⟨hown, hadded⟩

/-- A comment between a branch and its `else`: two more statements are read, the comment and the plain `else`. -/
theorem comment_before_else :
    let pre : List BodyLine := [⟨1, 0, "if a"⟩, ⟨2, 2, "  x = 1"⟩]
    let post : List BodyLine := [⟨5, 2, "  y = 2"⟩]
    countAll (readBody none (pre ++ ⟨4, 0, "else"⟩ :: post)) = 3 ∧
      countAll (readBody none (pre ++ ⟨3, 0, "# c"⟩ :: ⟨4, 0, "else"⟩ :: post)) = 5 ∧
      ¬ Within (Added (.comment "c" ⟨3, 1, none⟩)) (readBody none (pre ++ ⟨4, 0, "else"⟩ :: post))
        (readBody none (pre ++ ⟨3, 0, "# c"⟩ :: ⟨4, 0, "else"⟩ :: post)) := by
  intro pre post
  have hplain : countAll (readBody none (pre ++ ⟨4, 0, "else"⟩ :: post)) = 3 := by decide +kernel
  have hcommented : countAll (readBody none (pre ++ ⟨3, 0, "# c"⟩ :: ⟨4, 0, "else"⟩ :: post)) = 5 := by decide +kernel
  refine ⟨hplain, hcommented, fun hadded => ?_⟩
  have hone := hadded.count_added
  omega

end Statement

end Trellis
