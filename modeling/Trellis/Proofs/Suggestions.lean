import Trellis.Proofs.EditDistance
import Trellis.Proofs.PathOrder

/-!
# Suggestions lose no candidate

Suggestions pass over every candidate whose length alone is too far from that of the name.

* Each edit changes the length of a text by at most one, so a distance is no less than the difference of the lengths
  (`Text.length_le_distance`).  Where lower case keeps the lengths, a candidate that is passed over is too far away
  (`scoreCandidate?_eq`).
* `Ranking`: the candidates within the distance, nearest first, then in text order.  There is exactly one
  (`ranking_rankedWithin`, `Ranking.eq`), and suggestions are its first elements (`suggestSimilar_ranking`).
-/

namespace Trellis

/-! ### Lengths -/

theorem Edit.length_le {s t : Text} (h : Edit s t) : s.length ≤ t.length + 1 ∧ t.length ≤ s.length + 1 := by
  cases h with
  | insert u v c =>
    simp only [List.length_append, List.length_cons]
    omega
  | delete u v c =>
    simp only [List.length_append, List.length_cons]
    omega
  | substitute u v c d =>
    simp only [List.length_append, List.length_cons]
    omega

theorem Edits.length_le {n : Nat} {s t : Text} (h : Edits n s t) : s.length ≤ t.length + n ∧ t.length ≤ s.length + n := by
  induction h with
  | done s => omega
  | @step n s m t h _ ih =>
    have hstep := h.length_le
    omega

/-- **A distance is no less than the difference of the lengths.** -/
theorem Text.length_le_distance (s t : Text) : s.length ≤ t.length + distance s t ∧ t.length ≤ s.length + distance s t :=
  (edits_distance s t).length_le

/-! ### Candidates -/

/-- How far a candidate is from the name, in lower case. -/
def remoteness (name candidate : Text) : Nat := Text.distance (Text.lower name) (Text.lower candidate)

/-- The candidate is within the distance. -/
def isWithin (name : Text) (maxDistance : Int) (candidate : Text) : Bool := remoteness name candidate ≤ maxDistance

/-- Lower case keeps the length of a text. -/
def LowerKeepsLength (t : Text) : Prop := (Text.lower t).length = t.length

instance (t : Text) : Decidable (LowerKeepsLength t) := inferInstanceAs (Decidable (_ = _))

variable {name : Text} {candidates : List Text} {maxDistance : Int}

/-- A candidate is passed over for its length only if it is too far away. -/
theorem isWithin_of_gap {candidate : Text} (hname : LowerKeepsLength name) (hcandidate : LowerKeepsLength candidate)
    (hgap : ((candidate.length : Int) - name.length).natAbs > maxDistance) :
    isWithin name maxDistance candidate = false := by
  have hlower := Text.length_le_distance (Text.lower name) (Text.lower candidate)
  rw [hname, hcandidate] at hlower
  have hfar : maxDistance < remoteness name candidate := by
    unfold remoteness
    omega
  exact decide_eq_false (by omega)

theorem scoreCandidate?_eq {candidate : Text} (hname : LowerKeepsLength name)
    (hcandidate : LowerKeepsLength candidate) :
    scoreCandidate? name maxDistance candidate =
      if isWithin name maxDistance candidate then some (remoteness name candidate, candidate) else none := by
  unfold scoreCandidate?
  simp only
  split
  · rename_i hgap
    rw [isWithin_of_gap hname hcandidate hgap]
    rfl
  · rw [editDistance_eq_distance]
    simp only [isWithin, decide_eq_true_eq]
    rfl

/-- Every candidate within the distance gets a score, and no other. -/
theorem filterMap_scoreCandidate? (hname : LowerKeepsLength name)
    (hcandidates : ∀ c ∈ candidates, LowerKeepsLength c) :
    candidates.filterMap (scoreCandidate? name maxDistance) =
      (candidates.filter (isWithin name maxDistance)).map fun c => (remoteness name c, c) := by
  induction candidates with
  | nil => rfl
  | cons c cs ih =>
    have hrest := ih fun d hd => hcandidates d (List.mem_cons_of_mem c hd)
    have hscore : scoreCandidate? name maxDistance c = _ := scoreCandidate?_eq hname (hcandidates c List.mem_cons_self)
    by_cases hwithin : isWithin name maxDistance c = true
    · rw [if_pos hwithin] at hscore
      rw [List.filterMap_cons_some hscore, List.filter_cons_of_pos hwithin, List.map_cons, hrest]
    · rw [if_neg hwithin] at hscore
      rw [List.filterMap_cons_none hscore, List.filter_cons_of_neg hwithin, hrest]

/-! ### Rankings -/

/-- The first candidate is nearer to the name than the second, or as near and not behind it in text order. -/
def Precedes (name a b : Text) : Prop :=
  remoteness name a < remoteness name b ∨ remoteness name a = remoteness name b ∧ Text.le a b = true

instance (name a b : Text) : Decidable (Precedes name a b) := inferInstanceAs (Decidable (_ ∨ _))

theorem Precedes.trans {a b c : Text} (hab : Precedes name a b) (hbc : Precedes name b c) : Precedes name a c := by
  obtain hab | ⟨hab, hleab⟩ := hab
  · obtain hbc | ⟨hbc, -⟩ := hbc
    · exact .inl (hab.trans hbc)
    · exact .inl (hbc ▸ hab)
  · obtain hbc | ⟨hbc, hlebc⟩ := hbc
    · exact .inl (hab ▸ hbc)
    · exact .inr ⟨hab.trans hbc, Text.leBy_trans hleab hlebc⟩

theorem precedes_total (name a b : Text) : Precedes name a b ∨ Precedes name b a := by
  obtain hlt | heq | hlt := Nat.lt_trichotomy (remoteness name a) (remoteness name b)
  · exact .inl (.inl hlt)
  · exact (Text.leBy_total Char.toNat a b).imp (fun h => .inr ⟨heq, h⟩) fun h => .inr ⟨heq.symm, h⟩
  · exact .inr (.inl hlt)

theorem Precedes.antisymm {a b : Text} (hab : Precedes name a b) (hba : Precedes name b a) : a = b := by
  obtain hab | ⟨hab, hleab⟩ := hab
  · obtain hba | ⟨hba, -⟩ := hba <;> omega
  · obtain hba | ⟨-, hleba⟩ := hba
    · omega
    · exact Text.le_antisymm hleab hleba

/-- Scores are compared as their candidates are. -/
theorem scoreLe_iff {a b : Text} :
    scoreLe (remoteness name a, a) (remoteness name b, b) = true ↔ Precedes name a b := by
  simp [scoreLe, Precedes]

/-- A ranking of the candidates: all that are within the distance, each as often as it is a candidate, nearest first,
then in text order. -/
structure Ranking (name : Text) (maxDistance : Int) (candidates ranked : List Text) : Prop where
  complete : ranked.Perm (candidates.filter (isWithin name maxDistance))
  ordered : ranked.Pairwise (Precedes name)

/-- A ranking does not depend on the order of the candidates: there is only one. -/
theorem Ranking.eq {ranked ranked' : List Text} (h : Ranking name maxDistance candidates ranked)
    (h' : Ranking name maxDistance candidates ranked') : ranked = ranked' :=
  List.Perm.eq_of_pairwise (fun _ _ _ _ hab hba => hab.antisymm hba) h.ordered h'.ordered
    (h.complete.trans h'.complete.symm)

/-- The candidates within the distance, sorted by their scores. -/
def rankedWithin (name : Text) (maxDistance : Int) (candidates : List Text) : List Text :=
  (candidates.filter (isWithin name maxDistance)).mergeSort fun a b =>
    scoreLe (remoteness name a, a) (remoteness name b, b)

theorem ranking_rankedWithin (name : Text) (maxDistance : Int) (candidates : List Text) :
    Ranking name maxDistance candidates (rankedWithin name maxDistance candidates) := by
  refine ⟨List.mergeSort_perm _ _, List.Pairwise.imp scoreLe_iff.mp ?_⟩
  apply List.pairwise_mergeSort
  · intro a b c hab hbc
    exact scoreLe_iff.mpr ((scoreLe_iff.mp hab).trans (scoreLe_iff.mp hbc))
  · intro a b
    rw [Bool.or_eq_true, scoreLe_iff, scoreLe_iff]
    exact precedes_total name a b

/-- **Suggestions are the first candidates of the ranking.**  Where lower case keeps the lengths of the name and of the
candidates, the candidates within the distance have exactly one ranking, and the suggestions are its first elements: no
candidate is lost for its length, and the order of the candidates does not matter. -/
theorem suggestSimilar_ranking (hname : LowerKeepsLength name) (hcandidates : ∀ c ∈ candidates, LowerKeepsLength c)
    (maxDistance : Int) (count : Nat) :
    ∃ ranked, (∀ r, Ranking name maxDistance candidates r ↔ r = ranked) ∧
      suggestSimilar name candidates maxDistance count = ranked.take count := by
  have hranking := ranking_rankedWithin name maxDistance candidates
  refine ⟨rankedWithin name maxDistance candidates, fun r => ⟨fun hr => hr.eq hranking, fun hr => hr ▸ hranking⟩, ?_⟩
  have hscores : (rankedWithin name maxDistance candidates).map (fun c => (remoteness name c, c)) =
      (candidates.filterMap (scoreCandidate? name maxDistance)).mergeSort scoreLe := by
    rw [filterMap_scoreCandidate? hname hcandidates]
    exact List.map_mergeSort fun _ _ _ _ => rfl
  have hcandidate : ((·.2) : Nat × Text → Text) ∘ (fun c => (remoteness name c, c)) = id := rfl
  unfold suggestSimilar takeSigned
  rw [if_pos (Int.natCast_nonneg count), Int.toNat_natCast, ← hscores, List.map_take, List.map_map, hcandidate, List.map_id]

/-- The first four of the five candidates within the distance, where one is given twice. -/
theorem suggestSimilar_ranking_fun :
    LowerKeepsLength "Fun" ∧
      (∀ c ∈ (["fun", "f", "use", "fn", "FUN", "fun"] : List Text), LowerKeepsLength c) ∧
      suggestSimilar "Fun" ["fun", "f", "use", "fn", "FUN", "fun"] 2 4 = ["FUN", "fun", "fun", "fn"] := by
  have hname : LowerKeepsLength "Fun" := by decide
  have hcandidates : ∀ c ∈ (["fun", "f", "use", "fn", "FUN", "fun"] : List Text), LowerKeepsLength c := by decide
  have hranking : Ranking "Fun" 2 ["fun", "f", "use", "fn", "FUN", "fun"] ["FUN", "fun", "fun", "fn", "f"] :=
    ⟨by decide +kernel, by decide +kernel⟩
  obtain ⟨ranked, honly, htake⟩ := suggestSimilar_ranking hname hcandidates 2 4
  obtain rfl := (honly _).mp hranking
  exact ⟨hname, hcandidates, htake⟩

end Trellis
