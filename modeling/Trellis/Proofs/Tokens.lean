import Trellis.Token

/-!
# The tokens of a source

The tokens are the non-blank lines of a source, classified one by one, with strictly increasing line numbers.  A leader
word that needs an argument has one: the line of an `if` has a test.
-/

namespace Trellis

/-- The lines of a source that are not blank. -/
def contentLines (source : Text) : List Text := (Text.lines source).filter (!Text.isBlankText ·)

namespace LineToken

@[simp] theorem classify_line (n : Nat) (raw : Text) : (classify n raw).line = n := by
  unfold classify
  split <;> rfl

@[simp] theorem classify_indent (n : Nat) (raw : Text) : (classify n raw).indent = indentOf raw := by
  unfold classify
  split <;> rfl

@[simp] theorem classify_raw (n : Nat) (raw : Text) : (classify n raw).raw = raw := by
  unfold classify
  split <;> rfl

/-- The kind and the text of a line depend on the trimmed line alone. -/
theorem classify_of_trim {a b : Text} (h : Text.trim a = Text.trim b) (m n : Nat) :
    (classify m a).kind = (classify n b).kind ∧ (classify m a).text = (classify n b).text := by
  unfold classify
  rw [h]
  split <;> exact ⟨rfl, rfl⟩

theorem le_line_of_mem_ofLines {n : Nat} {ls : List Text} {t : LineToken} (h : t ∈ ofLines n ls) : n ≤ t.line := by
  induction ls generalizing n with
  | nil => simp [ofLines] at h
  | cons l ls ih =>
    unfold ofLines at h
    split at h
    · have := ih h
      omega
    · rcases List.mem_cons.mp h with rfl | h
      · simp
      · have := ih h
        omega

theorem pairwise_ofLines (n : Nat) (ls : List Text) : (ofLines n ls).Pairwise fun a b => a.line < b.line := by
  induction ls generalizing n with
  | nil => exact .nil
  | cons l ls ih =>
    unfold ofLines
    split
    · exact ih (n + 1)
    · refine .cons (fun t ht => ?_) (ih (n + 1))
      have := le_line_of_mem_ofLines ht
      simp only [classify_line]
      omega

/-- Line numbers strictly increase along the tokens of a source. -/
theorem pairwise_tokenize (source : Text) : (tokenize source).Pairwise fun a b => a.line < b.line :=
  pairwise_ofLines 1 _

theorem raws_ofLines (n : Nat) (ls : List Text) :
    (ofLines n ls).map (·.raw) = ls.filter (!Text.isBlankText ·) := by
  induction ls generalizing n with
  | nil => rfl
  | cons l ls ih =>
    unfold ofLines
    by_cases hb : Text.isBlankText l = true
    · rw [if_pos hb, ih, List.filter_cons_of_neg (by simp [hb])]
    · rw [if_neg hb, List.map_cons, ih, classify_raw, List.filter_cons_of_pos (by simp [hb])]

theorem eq_classify_of_mem {n : Nat} {ls : List Text} {t : LineToken} (h : t ∈ ofLines n ls) :
    t = classify t.line t.raw := by
  induction ls generalizing n with
  | nil => cases h
  | cons l ls ih =>
    unfold ofLines at h
    split at h
    · exact ih h
    · rcases List.mem_cons.mp h with rfl | h
      · rw [classify_line, classify_raw]
      · exact ih h

theorem getElem?_of_mem_ofLines {n : Nat} {ls : List Text} {t : LineToken} (h : t ∈ ofLines n ls) :
    ls[t.line - n]? = some t.raw ∧ Text.isBlankText t.raw = false := by
  induction ls generalizing n with
  | nil => cases h
  | cons l ls ih =>
    have hlater : t ∈ ofLines (n + 1) ls →
        (l :: ls)[t.line - n]? = some t.raw ∧ Text.isBlankText t.raw = false := by
      intro h
      have hle := le_line_of_mem_ofLines h
      have hsub : t.line - n = t.line - (n + 1) + 1 := by omega
      rw [hsub, List.getElem?_cons_succ]
      exact ih h
    unfold ofLines at h
    split at h
    · exact hlater h
    · next hblank =>
      rcases List.mem_cons.mp h with rfl | h
      · rw [classify_line, classify_raw, Nat.sub_self]
        exact ⟨rfl, by simpa using hblank⟩
      · exact hlater h

/-- A token is the line of the source with its number, and that line is not blank. -/
theorem exists_line_of_mem_tokenize {source : Text} {t : LineToken} (h : t ∈ tokenize source) :
    ∃ n, t.line = n + 1 ∧ (Text.lines source)[n]? = some t.raw ∧ Text.isBlankText t.raw = false := by
  have hle : 1 ≤ t.line := le_line_of_mem_ofLines h
  obtain ⟨hget, hblank⟩ := getElem?_of_mem_ofLines h
  exact ⟨t.line - 1, by omega, hget, hblank⟩

/-- The tokens of a source are its non-blank lines, in order. -/
theorem raws_tokenize (source : Text) : (tokenize source).map (·.raw) = contentLines source := raws_ofLines 1 _

/-- The lines before and behind a token have other numbers. -/
theorem line_ne_of_split {source : Text} {before after : List LineToken} {t : LineToken}
    (h : tokenize source = before ++ t :: after) :
    (∀ u ∈ before, u.line < t.line) ∧ ∀ u ∈ after, t.line < u.line := by
  have hp := pairwise_tokenize source
  rw [h, List.pairwise_append] at hp
  obtain ⟨-, htail, hcross⟩ := hp
  exact ⟨fun u hu => hcross u hu t List.mem_cons_self, (List.pairwise_cons.mp htail).1⟩

end LineToken

/-! ### Arguments -/

namespace Text

theorem trimEnd_eq_nil_iff {t : Text} : trimEnd t = [] ↔ ∀ c ∈ t, isBlank c = true := by
  induction t with
  | nil => simp [trimEnd]
  | cons c t ih =>
    rw [List.forall_mem_cons, ← ih, trimEnd]
    cases trimEnd t with
    | nil => by_cases hc : isBlank c = true <;> simp [hc]
    | cons d s => simp

theorem trim_eq_nil_iff {t : Text} : trim t = [] ↔ ∀ c ∈ t, isBlank c = true := by
  unfold trim trimStart
  induction t with
  | nil => simp [trimEnd]
  | cons c t ih =>
    by_cases hc : isBlank c = true
    · rw [List.dropWhile_cons_of_pos hc, ih, List.forall_mem_cons]
      simp [hc]
    · rw [List.dropWhile_cons_of_neg hc, trimEnd_eq_nil_iff]

/-- A trimmed text does not end in a blank. -/
theorem isBlank_getLast_trim {t : Text} : ∀ c ∈ (trim t).getLast?, isBlank c = false := by
  unfold trim
  generalize trimStart t = s
  induction s with
  | nil => simp [trimEnd]
  | cons c s ih =>
    rw [trimEnd]
    cases hs : trimEnd s with
    | nil => by_cases hc : isBlank c = true <;> simp [hc]
    | cons d u =>
      rw [hs] at ih
      simpa [List.getLast?_cons] using ih

end Text

namespace LineToken

/-- Behind a leading word of a trimmed text there is something. -/
theorem leadingWord?_trim {x w rest : Text} (h : leadingWord? (Text.trim x) = some (w, rest)) : rest ≠ [] := by
  unfold leadingWord? at h
  split at h
  · rename_i c d r hw hd
    split at h
    · cases h
      intro hnil
      have hblank := Text.trim_eq_nil_iff.mp hnil
      obtain ⟨e, he⟩ : ∃ e, (d :: r).getLast? = some e := ⟨_, List.getLast?_cons⟩
      have hlast : (Text.trim x).getLast? = some e := by
        rw [← List.takeWhile_append_dropWhile (p := Text.isWord) (l := Text.trim x), hd, List.getLast?_append, he]
        rfl
      have hnot := Text.isBlank_getLast_trim e hlast
      rw [hblank e (List.mem_of_getLast? he)] at hnot
      cases hnot
    · cases h
  · cases h

theorem stripComment_eq_trim (t : Text) : ∃ x, stripComment t = Text.trim x := by
  unfold stripComment
  split
  · exact ⟨_, rfl⟩
  · exact ⟨_, rfl⟩

theorem kindOf_cond {x : Text} (h : (kindOf (Text.trim x)).1 = .cond) : (kindOf (Text.trim x)).2 ≠ [] := by
  unfold kindOf at h ⊢
  cases hw : wordedKind? (Text.trim x) with
  | some r =>
    obtain ⟨⟨w, rest⟩, hlead, hr⟩ := Option.bind_eq_some_iff.mp hw
    obtain ⟨kind, -, hr⟩ := Option.bind_eq_some_iff.mp hr
    cases hr
    exact leadingWord?_trim hlead
  | none =>
    rw [hw] at h
    simp only at h
    split at h
    · cases h
    · cases h
    · split at h
      · cases h
      · split at h
        · cases h
        · split at h <;> cases h

/-- An `if` line has a test. -/
theorem text_ne_nil_of_cond {n : Nat} {raw : Text} (h : (classify n raw).kind = .cond) : (classify n raw).text ≠ [] := by
  unfold classify at h ⊢
  split
  · rename_i hraw
    rw [hraw] at h
    cases h
  · rename_i hraw
    obtain ⟨x, hx⟩ := stripComment_eq_trim (Text.trim raw)
    rw [hx]
    split at h
    · rename_i h'
      exact absurd h' (hraw _)
    · rw [hx] at h
      exact kindOf_cond h

end LineToken

end Trellis
