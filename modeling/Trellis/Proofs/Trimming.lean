import Mathlib.Data.List.TakeWhile
import Trellis.Location
import Trellis.Proofs.Tokens

/-!
# The blanks around a line

A line is its leading blanks, its trimmed text and its trailing blanks (`exists_blanks`).  From this cut follow where a
span of the line starts and ends (`Span.ofLine_eq`), and that the characters in between are the trimmed text
(`take_drop_trim`).
-/

namespace Trellis

namespace Text

def Blanks (t : Text) : Prop := ∀ c ∈ t, isBlank c = true

/-! ### One end -/

theorem trimEnd_append_blanks {s : Text} (hs : Blanks s) (t : Text) : trimEnd (t ++ s) = trimEnd t := by
  induction t with
  | nil =>
    rw [List.nil_append, trimEnd_eq_nil_iff.mpr hs]
    rfl
  | cons c t ih =>
    rw [List.cons_append, trimEnd, ih]
    rfl

theorem trimEnd_append {s : Text} (hs : trimEnd s ≠ []) (t : Text) : trimEnd (t ++ s) = t ++ trimEnd s := by
  induction t with
  | nil => rfl
  | cons c t ih =>
    rw [List.cons_append, trimEnd, ih]
    split
    · rename_i hnil
      exact absurd (List.append_eq_nil_iff.mp hnil).2 hs
    · rfl

theorem exists_trimEnd (t : Text) : ∃ tail, Blanks tail ∧ t = trimEnd t ++ tail := by
  induction t with
  | nil => exact ⟨[], nofun, rfl⟩
  | cons c t ih =>
    obtain ⟨tail, htail, ht⟩ := ih
    by_cases hnil : trimEnd t = []
    · have hblank : Blanks t := trimEnd_eq_nil_iff.mp hnil
      rw [trimEnd, hnil]
      by_cases hc : isBlank c = true
      · exact ⟨c :: t, List.forall_mem_cons.mpr ⟨hc, hblank⟩, by simp [hc]⟩
      · exact ⟨t, hblank, by simp [hc]⟩
    · refine ⟨tail, htail, ?_⟩
      have hcons : trimEnd (c :: t) = c :: trimEnd t := trimEnd_append (t := [c]) hnil
      rw [hcons, List.cons_append, ← ht]

theorem trimEnd_trimEnd (t : Text) : trimEnd (trimEnd t) = trimEnd t := by
  obtain ⟨tail, htail, ht⟩ := exists_trimEnd t
  calc trimEnd (trimEnd t) = trimEnd (trimEnd t ++ tail) := (trimEnd_append_blanks htail _).symm
    _ = trimEnd t := by rw [← ht]

theorem trimStart_blanks_append {s : Text} (hs : Blanks s) (t : Text) : trimStart (s ++ t) = trimStart t :=
  List.dropWhile_append_of_pos hs

theorem head?_trimStart {t : Text} : ∀ c ∈ (trimStart t).head?, isBlank c = false := by
  intro c hc
  have h := List.head?_dropWhile_not isBlank t
  unfold trimStart at hc
  rw [Option.mem_def.mp hc] at h
  simpa using h

theorem trimStart_eq_self {t : Text} (h : ∀ c ∈ t.head?, isBlank c = false) : trimStart t = t := by
  cases t with
  | nil => rfl
  | cons c t => exact List.dropWhile_cons_of_neg (by simp [h c rfl])

/-! ### Both ends -/

/-- **A line is cut** into leading blanks, its trimmed text and trailing blanks. -/
theorem exists_blanks (t : Text) :
    ∃ lead tail, Blanks lead ∧ Blanks tail ∧ t = lead ++ trim t ++ tail ∧ indentOf t = lead.length := by
  obtain ⟨tail, htail, ht⟩ := exists_trimEnd (trimStart t)
  have hsplit : t.takeWhile isBlank ++ trimStart t = t := List.takeWhile_append_dropWhile
  refine ⟨t.takeWhile isBlank, tail, fun c hc => List.mem_takeWhile_imp hc, htail, ?_, ?_⟩
  · show t = t.takeWhile isBlank ++ trimEnd (trimStart t) ++ tail
    rw [List.append_assoc, ← ht, hsplit]
  · have hlength := congrArg List.length hsplit
    rw [List.length_append] at hlength
    unfold indentOf
    omega

/-- A line and its trimmed text start alike behind the indent. -/
theorem head?_trim_eq (t : Text) : (trim t).head? = (trimStart t).head? := by
  obtain ⟨tail, -, ht⟩ := exists_trimEnd (trimStart t)
  cases hs : trim t with
  | nil =>
    have hstart : trimStart t = [] := List.dropWhile_eq_nil_iff.mpr (trim_eq_nil_iff.mp hs)
    rw [hstart]
  | cons c s =>
    have hend : trimEnd (trimStart t) = c :: s := hs
    rw [ht, hend]
    rfl

theorem head?_trim {t : Text} : ∀ c ∈ (trim t).head?, isBlank c = false := by
  rw [head?_trim_eq]
  exact head?_trimStart

theorem trim_blanks_append {s : Text} (hs : Blanks s) (t : Text) : trim (s ++ t) = trim t := by
  unfold trim
  rw [trimStart_blanks_append hs]

theorem trimStart_append {t : Text} (ht : trim t ≠ []) (s : Text) : trimStart (t ++ s) = trimStart t ++ s := by
  have hnot : (t.dropWhile isBlank).isEmpty = false := by
    rw [List.isEmpty_eq_false_iff]
    exact fun h => ht (trim_eq_nil_iff.mpr (List.dropWhile_eq_nil_iff.mp h))
  unfold trimStart
  rw [List.dropWhile_append, if_neg (by simp [hnot])]

theorem trim_append_blanks {s : Text} (hs : Blanks s) (t : Text) : trim (t ++ s) = trim t := by
  by_cases ht : trim t = []
  · have hblank : Blanks t := trim_eq_nil_iff.mp ht
    have hboth : Blanks (t ++ s) := fun c hc => (List.mem_append.mp hc).elim (hblank c) (hs c)
    rw [ht, trim_eq_nil_iff.mpr hboth]
  · unfold trim
    rw [trimStart_append ht, trimEnd_append_blanks hs]

theorem trim_append_ne_nil {t : Text} (ht : trim t ≠ []) (s : Text) : trim (t ++ s) ≠ [] := by
  intro h
  refine ht (trim_eq_nil_iff.mpr fun c hc => ?_)
  exact trim_eq_nil_iff.mp h c (List.mem_append_left s hc)

/-- Appending to a line that is not blank keeps its indent and its first character. -/
theorem indentOf_append {t : Text} (ht : trim t ≠ []) (s : Text) :
    indentOf (t ++ s) = indentOf t ∧ (trim (t ++ s)).head? = (trim t).head? := by
  constructor
  · unfold indentOf
    rw [trimStart_append ht, List.length_append, List.length_append]
    omega
  · have hne : (trimStart t).head? ≠ none := by
      rw [← head?_trim_eq]
      exact fun h => ht (List.head?_eq_none_iff.mp h)
    obtain ⟨c, hc⟩ := Option.ne_none_iff_exists'.mp hne
    rw [head?_trim_eq, head?_trim_eq, trimStart_append ht, List.head?_append, hc]
    rfl

theorem trim_of_not_blank {t : Text} (h : ∀ c ∈ t, isBlank c = false) : trim t = t := by
  have hstart : trimStart t = t := trimStart_eq_self fun c hc => h c (List.mem_of_mem_head? hc)
  obtain ⟨tail, htail, hcut⟩ := exists_trimEnd t
  have hnil : tail = [] := by
    refine List.eq_nil_iff_forall_not_mem.mpr fun c hc => ?_
    have hmem : c ∈ t := hcut ▸ List.mem_append_right _ hc
    exact absurd (htail c hc) (by simp [h c hmem])
  rw [hnil, List.append_nil] at hcut
  rw [trim, hstart, ← hcut]

/-! ### Slices -/

/-- The trimmed text, as a slice of the line. -/
theorem take_drop_trim (t : Text) : (t.drop (indentOf t)).take (trim t).length = trim t := by
  obtain ⟨lead, tail, -, -, ht, hlead⟩ := exists_blanks t
  have hdrop : t.drop lead.length = trim t ++ tail := by
    rw [ht, List.append_assoc, List.drop_left, ← List.append_assoc, ← ht]
  rw [hlead, hdrop, List.take_left]

/-- Up to its trailing blanks, a line that is not blank is its indent and its trimmed text. -/
theorem exists_lead {t : Text} (ht : trim t ≠ []) :
    ∃ lead, Blanks lead ∧ trimEnd t = lead ++ trim t ∧ indentOf t = lead.length := by
  obtain ⟨lead, tail, hlead, htail, hcut, hindent⟩ := exists_blanks t
  have hend : trimEnd (trim t) = trim t := trimEnd_trimEnd _
  refine ⟨lead, hlead, ?_, hindent⟩
  calc trimEnd t = trimEnd (lead ++ trim t ++ tail) := by rw [← hcut]
    _ = trimEnd (lead ++ trim t) := trimEnd_append_blanks htail _
    _ = lead ++ trimEnd (trim t) := trimEnd_append (by rwa [hend]) lead
    _ = lead ++ trim t := by rw [hend]

theorem length_trimEnd {t : Text} (ht : trim t ≠ []) : (trimEnd t).length = indentOf t + (trim t).length := by
  obtain ⟨lead, -, hend, hindent⟩ := exists_lead ht
  rw [hend, List.length_append, hindent]

end Text

/-- **The span of a line** that is not blank starts behind its indent and covers its trimmed text. -/
theorem Span.ofLine_eq (line : Int) {raw : Text} (h : Text.trim raw ≠ []) (filename : Option Text) :
    Span.ofLine line raw filename =
      ⟨line, indentOf raw + 1, indentOf raw + (Text.trim raw).length + 1, shownFilename filename⟩ := by
  obtain ⟨lead, hlead, hend, hindent⟩ := Text.exists_lead h
  have hstart : Text.trimStart (lead ++ Text.trim raw) = Text.trim raw := by
    rw [Text.trimStart_blanks_append hlead, Text.trimStart_eq_self Text.head?_trim]
  have hpos : 0 < (Text.trim raw).length := List.length_pos_iff.mpr h
  simp only [Span.ofLine, hend, hstart, hindent, List.length_append, Span.mk.injEq, true_and, and_true]
  omega

end Trellis
