import Trellis.Literal.Block
import Trellis.Proofs.TrailingComment

/-!
# Texts that lines can hold

A text is code when nothing is stripped from it (`IsCode`).  Code stays code behind characters that neither quote nor
comment (`IsCode.behind`), so the lines that are put together from keys, dashes and scalars are code when these are.
-/

namespace Trellis

/-! ### Scanning texts without quotes -/

/-- No character is a quote or `target`. -/
def Bare (target : Char) (t : Text) : Prop := ∀ c ∈ t, isQuote c = false ∧ c ≠ target

variable {target : Char} {s t : Text}

theorem Bare.append (hs : Bare target s) (ht : Bare target t) : Bare target (s ++ t) :=
  List.forall_mem_append.mpr ⟨hs, ht⟩

theorem findUnquotedFrom_lt {opened : Option Char} {i : Nat} (h : findUnquotedFrom target opened t = some i) :
    i < t.length := by
  induction t generalizing opened i with
  | nil => cases h
  | cons c t ih =>
    rw [findUnquotedFrom] at h
    split at h
    · obtain rfl := Option.some.inj h
      exact Nat.zero_lt_succ _
    · obtain ⟨j, hj, rfl⟩ := Option.map_eq_some_iff.mp h
      exact Nat.succ_lt_succ (ih hj)

theorem findUnquoted_bare_append (hs : Bare target s) (t : Text) :
    findUnquoted target (s ++ t) = (findUnquoted target t).map (· + s.length) := by
  unfold findUnquoted
  induction s with
  | nil => simp
  | cons c s ih =>
    obtain ⟨⟨hquote, hne⟩, hs⟩ := List.forall_mem_cons.mp hs
    have hafter : quoteAfter none c = none := by
      unfold quoteAfter
      rw [hquote]
      rfl
    rw [List.cons_append, findUnquotedFrom, if_neg (by simp [hne]), hafter, ih hs, Option.map_map]
    rfl

/-! ### Words and names -/

namespace Text

theorem isBlank_of_isWord {c : Char} (h : isWord c = true) : isBlank c = false := by
  by_contra hblank
  rw [Bool.not_eq_false] at hblank
  unfold isBlank at hblank
  unfold isWord isAsciiLetter at h
  by_cases hascii : c.toNat < 0x80
  · simp only [hascii, if_true, Bool.or_eq_true, Bool.and_eq_true, decide_eq_true_eq] at hblank h
    have hunderscore : c = '_' → c.toNat = 0x5f := by
      rintro rfl
      rfl
    have hword := h.imp_right hunderscore
    omega
  · simp only [hascii, if_false, Bool.or_eq_true, Bool.and_eq_true, decide_eq_true_eq] at hblank h
    let blanks := [0x85, 0xa0, 0x1680] ++ List.range' 0x2000 11 ++ [0x2028, 0x2029, 0x202f, 0x205f, 0x3000]
    have hmem : c.toNat ∈ blanks := by
      simp only [blanks, List.mem_append, List.mem_cons, List.mem_range'_1, List.not_mem_nil, or_false]
      omega
    have hnone : blanks.all (fun n => !inRanges wordRanges n) = true := by decide +kernel
    have hc := List.all_eq_true.mp hnone _ hmem
    rw [h] at hc
    cases hc

theorem isNamePart_of_isNameStart {c : Char} (h : isNameStart c = true) : isNamePart c = true := by
  unfold isNameStart at h
  unfold isNamePart isWord
  by_cases hascii : c.toNat < 0x80
  · simp only [hascii, if_true]
    grind
  · simp only [isAsciiLetter, Bool.or_eq_true, Bool.and_eq_true, decide_eq_true_eq] at h
    have hunderscore : c = '_' → c.toNat = 0x5f := by
      rintro rfl
      rfl
    have hdollar : c = '$' → c.toNat = 0x24 := by
      rintro rfl
      rfl
    have hname := h.imp (Or.imp_right hunderscore) hdollar
    omega

end Text

/-! ### Texts without comments -/

/-- A text that a line can hold: it is not empty, and nothing is stripped from it. -/
def IsCode (t : Text) : Prop := t ≠ [] ∧ stripComment t = t

theorem isCode_iff : IsCode t ↔ t ≠ [] ∧ findUnquoted '#' t = none ∧ Text.trim t = t := by
  refine and_congr_right fun hne => ?_
  unfold stripComment
  cases hfind : findUnquoted '#' t with
  | none => simp
  | some i =>
    have hlt : i < t.length := findUnquotedFrom_lt hfind
    have hle := Literal.trim_length_le (t.take i)
    rw [List.length_take] at hle
    simp only [reduceCtorEq, false_and, iff_false]
    intro heq
    rw [heq] at hle
    omega

/-- A text is code when it ends in code, and what stands before is neither quoted nor a comment. -/
theorem IsCode.behind (ht : IsCode t) (hs : Bare '#' s) (hhead : ∀ c ∈ (s ++ t).head?, Text.isBlank c = false) :
    IsCode (s ++ t) := by
  obtain ⟨hne, hfind, htrim⟩ := isCode_iff.mp ht
  have hend : Text.trimEnd t = t := by
    conv_lhs => rw [← htrim]
    rw [Text.trim, Text.trimEnd_trimEnd]
    exact htrim
  refine isCode_iff.mpr ⟨by simp [hne], ?_, ?_⟩
  · rw [findUnquoted_bare_append hs, hfind]
    rfl
  · rw [Text.trim, Text.trimStart_eq_self hhead, Text.trimEnd_append (by rwa [hend]), hend]

theorem IsCode.head_ne (ht : IsCode t) : t.head? ≠ some '#' := by
  obtain ⟨-, hfind, -⟩ := isCode_iff.mp ht
  intro hhead
  obtain ⟨r, rfl⟩ := List.head?_eq_some_iff.mp hhead
  unfold findUnquoted at hfind
  rw [findUnquotedFrom_cons, if_pos ⟨rfl, rfl⟩] at hfind
  cases hfind

theorem IsCode.trim_blank_cons (ht : IsCode t) : Text.trim (' ' :: t) = t := by
  have hblank : Text.Blanks [' '] := List.forall_mem_singleton.mpr (by decide)
  exact (Text.trim_blanks_append hblank t).trans (isCode_iff.mp ht).2.2

end Trellis
