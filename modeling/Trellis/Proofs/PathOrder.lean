import Trellis.Path

/-!
# The order of paths

Texts and names are compared code by code and paths component by component.  These orders are total, so sorting puts
paths in order (`Path.pairwise_mergeSort`).
-/

namespace Trellis

namespace Text

section LeBy

variable {α : Type} {code : α → Nat} {s t r : List α}

theorem leBy_cons {a b : α} :
    leBy code (a :: s) (b :: t) = true ↔ code a < code b ∨ code a = code b ∧ leBy code s t = true := by
  simp [leBy]

theorem leBy_trans (h : leBy code s t = true) (h' : leBy code t r = true) : leBy code s r = true := by
  induction s generalizing t r with
  | nil => rfl
  | cons a s ih =>
    cases t with
    | nil => cases h
    | cons b t =>
      cases r with
      | nil => cases h'
      | cons c r =>
        rw [leBy_cons] at h h' ⊢
        obtain hab | ⟨hab, hst⟩ := h
        · exact .inl (by omega)
        · obtain hbc | ⟨hbc, htr⟩ := h'
          · exact .inl (by omega)
          · exact .inr ⟨hab.trans hbc, ih hst htr⟩

theorem leBy_total (code : α → Nat) (s t : List α) : leBy code s t = true ∨ leBy code t s = true := by
  induction s generalizing t with
  | nil => exact .inl rfl
  | cons a s ih =>
    cases t with
    | nil => exact .inr rfl
    | cons b t =>
      rw [leBy_cons, leBy_cons]
      obtain hlt | heq | hlt := Nat.lt_trichotomy (code a) (code b)
      · exact .inl (.inl hlt)
      · exact (ih t).imp (fun h => .inr ⟨heq, h⟩) fun h => .inr ⟨heq.symm, h⟩
      · exact .inr (.inl hlt)

theorem leBy_antisymm (hcode : ∀ a b, code a = code b → a = b) (h : leBy code s t = true)
    (h' : leBy code t s = true) : s = t := by
  induction s generalizing t with
  | nil =>
    cases t with
    | nil => rfl
    | cons b t => cases h'
  | cons a s ih =>
    cases t with
    | nil => cases h
    | cons b t =>
      rw [leBy_cons] at h h'
      obtain hab | ⟨hab, hst⟩ := h
      · omega
      · obtain hba | ⟨-, hts⟩ := h'
        · omega
        · rw [hcode a b hab, ih hst hts]

end LeBy

theorem le_antisymm {s t : Text} (h : le s t = true) (h' : le t s = true) : s = t :=
  leBy_antisymm (fun _ _ => Char.toNat_inj.mp) h h'

end Text

/-- No character stands where the stray bytes do: those places belong to the surrogates. -/
theorem Glyph.code_inj {a b : Glyph} (h : a.code = b.code) : a = b := by
  have hapart : ∀ (c : Char) (low : Fin 128), c.toNat ≠ 0xdc80 + low.val := by
    intro c low heq
    have hlow := low.isLt
    rcases c.valid with hbefore | ⟨hbehind, -⟩
    · have : c.toNat < 0xd800 := hbefore
      omega
    · have : 0xdfff < c.toNat := hbehind
      omega
  cases a with
  | char c =>
    cases b with
    | char d => exact congrArg Glyph.char (Char.toNat_inj.mp h)
    | stray low => exact absurd h (hapart c low)
  | stray low =>
    cases b with
    | char d => exact absurd h.symm (hapart d low)
    | stray low' =>
      have hval : low.val = low'.val := Nat.add_left_cancel h
      exact congrArg Glyph.stray (Fin.ext hval)

theorem Name.le_antisymm {s t : Name} (h : le s t = true) (h' : le t s = true) : s = t :=
  Text.leBy_antisymm (fun _ _ => Glyph.code_inj) h h'

namespace Path

theorem le_go_trans {as bs cs : List Name} (h : le.go as bs = true) (h' : le.go bs cs = true) :
    le.go as cs = true := by
  induction as generalizing bs cs with
  | nil => rfl
  | cons a as ih =>
    cases bs with
    | nil => cases h
    | cons b bs =>
      cases cs with
      | nil => cases h'
      | cons c cs =>
        simp only [le.go] at h h' ⊢
        by_cases hab : a = b
        · subst hab
          rw [if_pos rfl] at h
          by_cases hac : a = c
          · rw [if_pos hac] at h' ⊢
            exact ih h h'
          · rwa [if_neg hac] at h' ⊢
        · rw [if_neg hab] at h
          by_cases hbc : b = c
          · subst hbc
            rwa [if_neg hab]
          · rw [if_neg hbc] at h'
            -- the first difference decides, and it is not undone by the second
            have hac : a ≠ c := fun hac => hbc (Name.le_antisymm h' (hac ▸ h))
            rw [if_neg hac]
            exact Text.leBy_trans h h'

theorem le_go_total (as bs : List Name) : le.go as bs = true ∨ le.go bs as = true := by
  induction as generalizing bs with
  | nil => exact .inl rfl
  | cons a as ih =>
    cases bs with
    | nil => exact .inr rfl
    | cons b bs =>
      simp only [le.go]
      by_cases hab : a = b
      · rw [if_pos hab, if_pos hab.symm]
        exact ih bs
      · rw [if_neg hab, if_neg (Ne.symm hab)]
        exact Text.leBy_total Glyph.code a b

theorem pairwise_mergeSort (ps : List Path) : (ps.mergeSort le).Pairwise fun p q => le p q = true := by
  have htrans : ∀ p q r : Path, le p q = true → le q r = true → le p r = true := fun _ _ _ => le_go_trans
  have htotal : ∀ p q : Path, (le p q || le q p) = true := by
    intro p q
    rw [Bool.or_eq_true]
    exact le_go_total _ _
  exact List.pairwise_mergeSort htrans htotal ps

end Path

end Trellis
