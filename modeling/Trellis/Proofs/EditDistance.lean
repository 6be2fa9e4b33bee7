import Mathlib.Data.List.Induction
import Mathlib.Data.List.Infix
import Mathlib.Order.Bounds.Basic
import Mathlib.Order.MinMax
import Trellis.Diagnostic.Distance

/-!
# The edit distance is least

* `Edit`: one edit of a text, anywhere in it; `Edits n s t`: `n` edits, one after the other, turn `s` into `t`.
* `Text.distance`: the distance by recursion on the first characters.  It is the least number of edits
  (`isLeast_distance`), hence it is symmetric and the same from both ends of the texts (`distance_concat`).
* The rows hold the distances to every beginning of the second text (`distanceRow_eq`), so the last entry is the
  distance of the texts, whichever of them the rows span (`editDistance_isLeast`).
-/

namespace Trellis

/-! ### Edits -/

/-- One character is inserted, deleted or replaced. -/
inductive Edit : Text → Text → Prop where
  | insert (u v : Text) (c : Char) : Edit (u ++ v) (u ++ c :: v)
  | delete (u v : Text) (c : Char) : Edit (u ++ c :: v) (u ++ v)
  | substitute (u v : Text) (c d : Char) : Edit (u ++ c :: v) (u ++ d :: v)

/-- So many edits, one after the other, turn the first text into the second. -/
inductive Edits : Nat → Text → Text → Prop where
  | done (s : Text) : Edits 0 s s
  | step {n : Nat} {s m t : Text} (h : Edit s m) (rest : Edits n m t) : Edits (n + 1) s t

variable {s t m : Text} {n : Nat}

theorem Edit.cons (c : Char) (h : Edit s t) : Edit (c :: s) (c :: t) := by
  cases h with
  | insert u v d => exact .insert (c :: u) v d
  | delete u v d => exact .delete (c :: u) v d
  | substitute u v d e => exact .substitute (c :: u) v d e

theorem Edits.cons (c : Char) (h : Edits n s t) : Edits n (c :: s) (c :: t) := by
  induction h with
  | done s => exact .done _
  | step h _ ih => exact .step (h.cons c) ih

theorem Edit.reverse (h : Edit s t) : Edit s.reverse t.reverse := by
  cases h with
  | insert u v c => simpa using Edit.insert v.reverse u.reverse c
  | delete u v c => simpa using Edit.delete v.reverse u.reverse c
  | substitute u v c d => simpa using Edit.substitute v.reverse u.reverse c d

theorem Edits.reverse (h : Edits n s t) : Edits n s.reverse t.reverse := by
  induction h with
  | done s => exact .done _
  | step h _ ih => exact .step h.reverse ih

theorem edits_insertAll (t : Text) : Edits t.length [] t := by
  induction t with
  | nil => exact .done []
  | cons c t ih => exact .step (.insert [] [] c) (ih.cons c)

theorem edits_deleteAll (s : Text) : Edits s.length s [] := by
  induction s with
  | nil => exact .done []
  | cons c s ih => exact .step (.delete [] s c) ih

/-! ### The distance by recursion -/

namespace Text

/-- The edit distance by recursion on the first characters: the first is deleted, one is inserted before it, or it
becomes the other, which costs nothing when they are equal. -/
def distance : Text → Text → Nat
  | [], t => t.length
  | a :: s, [] => (a :: s).length
  | a :: s, b :: t =>
    min (min (distance s (b :: t) + 1) (distance (a :: s) t + 1)) (distance s t + if a = b then 0 else 1)
termination_by s t => s.length + t.length

@[simp] theorem distance_nil_left (t : Text) : distance [] t = t.length := by rw [distance]

@[simp] theorem distance_nil_right (s : Text) : distance s [] = s.length := by
  cases s with
  | nil => rw [distance]
  | cons a s => rw [distance]

theorem distance_cons (a b : Char) (s t : Text) :
    distance (a :: s) (b :: t) =
      min (min (distance s (b :: t) + 1) (distance (a :: s) t + 1)) (distance s t + if a = b then 0 else 1) := by
  rw [distance]

theorem distance_comm (s t : Text) : distance s t = distance t s := by
  fun_induction distance s t with
  | case1 t => rw [distance_nil_right]
  | case2 a s => rw [distance_nil_left]
  | case3 a s b t ih₁ ih₂ ih₃ =>
    rw [distance_cons, ih₁, ih₂, ih₃, min_comm (distance t (a :: s) + 1)]
    simp only [eq_comm]

theorem distance_self (s : Text) : distance s s = 0 := by
  induction s with
  | nil => rw [distance_nil_left, List.length_nil]
  | cons a s ih => simp [distance_cons, ih]

/-! ### One edit changes the distance by at most one -/

theorem distance_cons_le (c : Char) (s t : Text) : distance (c :: s) t ≤ distance s t + 1 := by
  cases t with
  | nil => simp
  | cons b t =>
    rw [distance_cons]
    omega

theorem distance_le_cons (c : Char) (s t : Text) : distance s t ≤ distance (c :: s) t + 1 := by
  induction t with
  | nil =>
    simp only [distance_nil_right, List.length_cons]
    omega
  | cons b t ih =>
    have hinsert : distance s (b :: t) ≤ distance s t + 1 := by
      rw [distance_comm s, distance_comm s]
      exact distance_cons_le b t s
    rw [distance_cons]
    omega

theorem distance_substitute_le (c d : Char) (s t : Text) : distance (c :: s) t ≤ distance (d :: s) t + 1 := by
  induction t with
  | nil => simp
  | cons b t ih =>
    have hcost : (if c = b then 0 else 1) ≤ 1 := by split <;> omega
    rw [distance_cons, distance_cons]
    omega

/-- What holds behind the first character holds with it. -/
theorem distance_le_of_cons (a : Char) (h : ∀ t, distance s t ≤ distance m t + 1) (t : Text) :
    distance (a :: s) t ≤ distance (a :: m) t + 1 := by
  induction t with
  | nil =>
    have hnil := h []
    simp only [distance_nil_right, List.length_cons] at hnil ⊢
    omega
  | cons b t ih =>
    have hdelete := h (b :: t)
    have hkeep := h t
    rw [distance_cons, distance_cons]
    omega

theorem distance_le_of_append (u : Text) (h : ∀ t, distance s t ≤ distance m t + 1) :
    ∀ t, distance (u ++ s) t ≤ distance (u ++ m) t + 1 := by
  induction u with
  | nil => exact h
  | cons a u ih => exact distance_le_of_cons a ih

theorem distance_le_of_edit (h : Edit s m) : ∀ t, distance s t ≤ distance m t + 1 := by
  cases h with
  | insert u v c => exact distance_le_of_append u (distance_le_cons c v)
  | delete u v c => exact distance_le_of_append u (distance_cons_le c v)
  | substitute u v c d => exact distance_le_of_append u (distance_substitute_le c d v)

theorem distance_le_of_edits (h : Edits n s t) : distance s t ≤ n := by
  induction h with
  | done s => rw [distance_self]
  | @step n s m t h _ ih =>
    have hstep := distance_le_of_edit h t
    omega

/-! ### The distance is reached -/

theorem edits_distance (s t : Text) : Edits (distance s t) s t := by
  fun_induction distance s t with
  | case1 t => exact edits_insertAll t
  | case2 a s => exact edits_deleteAll (a :: s)
  | case3 a s b t ih₁ ih₂ ih₃ =>
    have hdelete : Edits (distance s (b :: t) + 1) (a :: s) (b :: t) := .step (.delete [] s a) ih₁
    have hinsert : Edits (distance (a :: s) t + 1) (a :: s) (b :: t) := .step (.insert [] (a :: s) b) (ih₂.cons b)
    have hkeep : Edits (distance s t + if a = b then 0 else 1) (a :: s) (b :: t) := by
      by_cases hab : a = b
      · subst hab
        rw [if_pos rfl]
        exact ih₃.cons a
      · rw [if_neg hab]
        exact .step (.substitute [] s a b) (ih₃.cons b)
    rcases min_choice (min (distance s (b :: t) + 1) (distance (a :: s) t + 1))
      (distance s t + if a = b then 0 else 1) with h | h <;> rw [h]
    · rcases min_choice (distance s (b :: t) + 1) (distance (a :: s) t + 1) with h | h <;> rw [h]
      · exact hdelete
      · exact hinsert
    · exact hkeep

/-- **The recursion gives the least number of edits.** -/
theorem isLeast_distance (s t : Text) : IsLeast {n | Edits n s t} (distance s t) :=
  ⟨edits_distance s t, fun _ h => distance_le_of_edits h⟩

/-! ### The last characters -/

theorem distance_reverse (s t : Text) : distance s.reverse t.reverse = distance s t := by
  refine le_antisymm (distance_le_of_edits (edits_distance s t).reverse) ?_
  have h := (edits_distance s.reverse t.reverse).reverse
  rw [List.reverse_reverse, List.reverse_reverse] at h
  exact distance_le_of_edits h

/-- The recursion on the last characters. -/
theorem distance_concat (a b : Char) (s t : Text) :
    distance (s ++ [a]) (t ++ [b]) =
      min (min (distance s (t ++ [b]) + 1) (distance (s ++ [a]) t + 1)) (distance s t + if a = b then 0 else 1) := by
  have hback : ∀ u v : Text, distance u v = distance u.reverse v.reverse := fun u v => (distance_reverse u v).symm
  rw [hback (s ++ [a]) (t ++ [b]), hback s (t ++ [b]), hback (s ++ [a]) t, hback s t]
  simp only [List.reverse_append, List.reverse_singleton, List.singleton_append]
  rw [distance_cons]

end Text

/-! ### Rows -/

/-- From the entry of the beginning `u` on, a row of `s` becomes one of `s` and one more character. -/
theorem nextRowFrom_eq (s u t : Text) (c : Char) :
    nextRowFrom c (Text.distance (s ++ [c]) u) (Text.distance s u) t
        (t.inits.tail.map fun v => Text.distance s (u ++ v)) =
      t.inits.tail.map fun v => Text.distance (s ++ [c]) (u ++ v) := by
  induction t generalizing u with
  | nil => rfl
  | cons d t ih =>
    have hinits : t.inits = [] :: t.inits.tail := by cases t <;> rfl
    have hrest := ih (u ++ [d])
    simp only [List.append_assoc, List.singleton_append] at hrest
    rw [List.inits_cons, List.tail_cons, hinits]
    simp only [List.map_cons, List.map_map, Function.comp_def]
    rw [nextRowFrom]
    simp only [← Text.distance_concat, hrest]

theorem nextRow_eq (s t : Text) (c : Char) :
    nextRow t (t.inits.map (Text.distance s)) c = t.inits.map (Text.distance (s ++ [c])) := by
  have hinits : t.inits = [] :: t.inits.tail := by cases t <;> rfl
  have hrow := nextRowFrom_eq s [] t c
  simp only [Text.distance_nil_right, List.length_append, List.length_singleton, List.nil_append] at hrow
  rw [hinits, List.map_cons, List.map_cons, nextRow]
  simp only [Text.distance_nil_right, List.length_append, List.length_singleton]
  rw [hrow]

/-- **A row holds the distances to every beginning of the second text.** -/
theorem distanceRow_eq (s t : Text) : distanceRow s t = t.inits.map (Text.distance s) := by
  induction s using List.reverseRecOn with
  | nil =>
    refine List.ext_getElem (by simp [distanceRow]) fun i hi _ => ?_
    have hi : i ≤ t.length := by simpa [distanceRow, Nat.lt_succ_iff] using hi
    simp [distanceRow, hi]
  | append_singleton s c ih =>
    rw [← nextRow_eq, ← ih, distanceRow, List.foldl_append]
    rfl

theorem getLastD_distanceRow (s t : Text) : (distanceRow s t).getLastD 0 = Text.distance s t := by
  have hlast : t.inits.getLast? = some t := by simp [List.getLast?_eq_getElem?]
  rw [distanceRow_eq, List.getLastD_eq_getLast?, List.getLast?_map, hlast]
  rfl

/-- The rows give the distance, and it does not matter which of the texts they span. -/
theorem editDistance_eq_distance (s t : Text) : editDistance s t = Text.distance s t := by
  unfold editDistance
  rw [getLastD_distanceRow, getLastD_distanceRow, Text.distance_comm t s, ite_self]

/-- **The edit distance is the least number of edits** that turn the first text into the second, and the distance by
recursion on both; it does not matter that the rows span the shorter one. -/
theorem editDistance_isLeast (s t : Text) :
    IsLeast {n | Edits n s t} (editDistance s t) ∧ editDistance s t = Text.distance s t := by
  rw [editDistance_eq_distance]
  exact ⟨Text.isLeast_distance s t, rfl⟩

example : editDistance "kitten" "sitting" = 3 ∧ editDistance "" "ab" = 2 := by decide

end Trellis
