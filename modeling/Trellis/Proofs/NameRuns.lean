import Trellis.Proofs.AwaitKeyword

/-!
# Runs of name characters

State names are identifiers, so a piece of code is best read as runs of name characters and other characters between
them.  Two equations say what `accessCode` makes of it: another character is kept (`accessCode_other`), and a whole run
gains `.value` exactly when it is a name, no point stands before it and no member `.value` behind it (`accessCode_use`,
`accessCode_pass`).  That a second rewriting changes nothing follows from them (`accessCode_accessCode`).
-/

namespace Trellis.Code

variable {names : List Text} {c : Char} {n w y z : Text} {previous : Option Char}

/-! ### Runs -/

/-- No name goes on at the start of the text. -/
def Ended (y : Text) : Prop := ∀ c ∈ y.head?, Text.isNamePart c = false

/-- The text is a run of name characters. -/
structure IsRun (w : Text) : Prop where
  ne_nil : w ≠ []
  parts : ∀ c ∈ w, Text.isNamePart c = true

theorem Ended.cons (hc : Text.isNamePart c = false) (t : Text) : Ended (c :: t) := by
  rintro d ⟨⟩
  exact hc

theorem Ended.nil : Ended [] := nofun

theorem isRun_of_isName (hn : Text.isName n = true) : IsRun n := by
  refine ⟨?_, isNamePart_of_mem_name hn⟩
  rintro rfl
  cases hn

/-- A run ends where no name goes on, so it is the whole run at its place. -/
theorem IsRun.unique (hw : IsRun w) (hn : IsRun n) (hy : Ended y) (hz : Ended z) (h : w ++ y = n ++ z) :
    w = n ∧ y = z := by
  have hrun : w = n := by
    have htake := congrArg (List.takeWhile Text.isNamePart) h
    rwa [takeWhile_append_of_head hy, takeWhile_append_of_head hz, List.takeWhile_eq_self_iff.mpr hw.parts,
      List.takeWhile_eq_self_iff.mpr hn.parts] at htake
  subst hrun
  exact ⟨rfl, List.append_cancel_left h⟩

theorem IsRun.last (hw : IsRun w) : ∃ c, w.getLast? = some c ∧ Text.isNamePart c = true := by
  obtain ⟨x, c, rfl⟩ := (List.eq_nil_or_concat' w).resolve_left hw.ne_nil
  exact ⟨c, List.getLast?_concat, hw.parts c (by simp)⟩

theorem startsBare_part (hc : Text.isNamePart c = true) : startsBare (some c) = false := by simp [startsBare, hc]

theorem IsRun.startsBare_last (hw : IsRun w) : startsBare w.getLast? = false := by
  obtain ⟨c, hlast, hc⟩ := hw.last
  rw [hlast, startsBare_part hc]

/-- A text starts with name characters, none or more, up to a place where no name goes on. -/
theorem exists_parts_append (t : Text) : ∃ w y, t = w ++ y ∧ (∀ c ∈ w, Text.isNamePart c = true) ∧ Ended y := by
  refine ⟨t.takeWhile Text.isNamePart, t.dropWhile Text.isNamePart, List.takeWhile_append_dropWhile.symm,
    fun _ hc => List.mem_takeWhile_imp hc, fun c hc => ?_⟩
  have hnot := List.head?_dropWhile_not Text.isNamePart t
  rw [Option.mem_def.mp hc] at hnot
  simpa using hnot

/-- **A text is read run by run.**  `previous` is the character before the text, and no run goes on behind it. -/
@[elab_as_elim]
theorem run_induction {motive : Option Char → Text → Prop} (atEnd : ∀ previous, motive previous [])
    (other : ∀ previous c t, Text.isNamePart c = false → motive (some c) t → motive previous (c :: t))
    (run : ∀ previous w y, IsRun w → Ended y → (∀ c ∈ previous, Text.isNamePart c = false) →
      motive w.getLast? y → motive previous (w ++ y))
    (previous : Option Char) (t : Text) (hfresh : ∀ c ∈ previous, Text.isNamePart c = true → Ended t) :
    motive previous t := by
  induction hlen : t.length using Nat.strongRecOn generalizing previous t with
  | _ k ih =>
    subst hlen
    cases t with
    | nil => exact atEnd previous
    | cons c t =>
      by_cases hc : Text.isNamePart c = true
      · -- a run starts here, for the character before it is no part of a name
        obtain ⟨w, y, rfl, hw, hy⟩ := exists_parts_append t
        have hrun : IsRun (c :: w) := ⟨by simp, List.forall_mem_cons.mpr ⟨hc, hw⟩⟩
        have hbefore : ∀ d ∈ previous, Text.isNamePart d = false := by
          intro d hd
          by_contra hpart
          have hnot := hfresh d hd (by simpa using hpart) c rfl
          rw [hc] at hnot
          cases hnot
        have hshort : y.length < (c :: (w ++ y)).length := by
          rw [List.length_cons, List.length_append]
          omega
        exact run previous (c :: w) y hrun hy hbefore (ih _ hshort _ y (fun _ _ _ => hy) rfl)
      · -- any other character is passed over alone
        rw [Bool.not_eq_true] at hc
        refine other previous c t hc (ih _ (by simp) (some c) t ?_ rfl)
        rintro d ⟨⟩ hpart
        rw [hc] at hpart
        cases hpart

/-! ### The member `.value` -/

theorem endsBare_iff : endsBare y = true ↔ Ended y ∧ hasValue y = false := by
  unfold endsBare Ended
  cases y with
  | nil => simp
  | cons c y => simp

/-- What is read of a run is read of the text that starts with it. -/
theorem after?_run {p : Text} (hp : ∀ c ∈ p, Text.isNamePart c = true) (hz : Ended z) (w : Text) :
    Text.after? p (w ++ z) = (Text.after? p w).map (· ++ z) := by
  cases z with
  | nil => simp
  | cons c z =>
    refine after?_barrier fun hmem => ?_
    have hnot := hz c rfl
    rw [hp c hmem] at hnot
    cases hnot

/-- A member name ends with its run: what follows does not matter. -/
theorem hasValue_point (hy : Ended y) (hz : Ended z) (w : Text) : hasValue ('.' :: (w ++ y)) = hasValue ('.' :: (w ++ z)) := by
  have hparts : ∀ c ∈ ("value" : Text), Text.isNamePart c = true := List.all_eq_true.mp (by decide)
  have hword : ∀ {x : Text}, Ended x → (x.head?.map Text.isWord).getD false = false := by
    intro x hx
    cases x with
    | nil => rfl
    | cons c x => exact (Bool.or_eq_false_iff.mp (hx c rfl)).1
  have hpoint : ∀ x : Text, Text.after? ".value" ('.' :: x) = Text.after? "value" x := fun x => if_pos rfl
  unfold hasValue
  rw [hpoint, hpoint, after?_run hparts hy, after?_run hparts hz]
  cases Text.after? "value" w with
  | none => rfl
  | some r =>
    cases r with
    | nil => simp [hword hy, hword hz]
    | cons c r => rfl

theorem hasValue_value (hy : Ended y) : hasValue (".value" ++ y) = true := (hasValue_point hy .nil "value").trans rfl

theorem hasValue_other (hc : c ≠ '.') (t : Text) : hasValue (c :: t) = false := by
  unfold hasValue
  have hnone : Text.after? ".value" (c :: t) = none := if_neg (Ne.symm hc)
  rw [hnone]

/-! ### Rewriting run by run -/

section Rewriting

variable (hnames : ∀ n ∈ names, Text.isName n = true)

include hnames

/-- The name that is used at the start of a run is the run. -/
theorem usedAt?_run (hw : IsRun w) (hy : Ended y) (h : usedAt? names previous (w ++ y) = some n) :
    n = w ∧ startsBare previous = true ∧ w ∈ names ∧ hasValue y = false := by
  obtain ⟨hstart, hn, rest, hrest, hend⟩ := usedAt?_eq_some h
  obtain ⟨hrest', hvalue⟩ := endsBare_iff.mp hend
  obtain ⟨rfl, rfl⟩ := hw.unique (isRun_of_isName (hnames n hn)) hy hrest' hrest
  exact ⟨rfl, hstart, hn, hvalue⟩

theorem usedAt?_other (hc : Text.isNamePart c = false) (t : Text) : usedAt? names previous (c :: t) = none := by
  cases h : usedAt? names previous (c :: t) with
  | none => rfl
  | some n =>
    obtain ⟨-, hn, rest, hrest, -⟩ := usedAt?_eq_some h
    obtain ⟨hne, hparts⟩ := isRun_of_isName (hnames n hn)
    obtain ⟨d, n, rfl⟩ := List.exists_cons_of_ne_nil hne
    have hd := hparts d List.mem_cons_self
    rw [← (List.cons.inj hrest).1, hc] at hd
    cases hd

theorem accessCode_nil (previous : Option Char) : accessCode names previous [] = [] := by
  cases h : usedAt? names previous [] with
  | none => exact accessCode_nil_of_none h
  | some n =>
    obtain ⟨-, hn, rest, hrest, -⟩ := usedAt?_eq_some h
    exact absurd (List.append_eq_nil_iff.mp hrest.symm).1 (isRun_of_isName (hnames n hn)).ne_nil

/-- A character between runs is kept. -/
theorem accessCode_other (hc : Text.isNamePart c = false) (previous : Option Char) (t : Text) :
    accessCode names previous (c :: t) = c :: accessCode names (some c) t :=
  accessCode_of_none (usedAt?_other hnames hc t)

omit hnames in
/-- Inside a run nothing is written. -/
theorem accessCode_inside (hw : ∀ d ∈ w, Text.isNamePart d = true) (hc : Text.isNamePart c = true) (y : Text) :
    accessCode names (some c) (w ++ y) = w ++ accessCode names ((c :: w).getLast?) y := by
  induction w generalizing c with
  | nil => rfl
  | cons d w ih =>
    obtain ⟨hd, hw⟩ := List.forall_mem_cons.mp hw
    have hnone : usedAt? names (some c) (d :: (w ++ y)) = none := by
      rw [usedAt?, startsBare_part hc]
      rfl
    rw [List.cons_append, accessCode_of_none hnone, ih hw hd, List.cons_append, List.getLast?_cons_cons]

/-- **A run that is a use gains `.value`.** -/
theorem accessCode_use (hw : IsRun w) (hy : Ended y) (hstart : startsBare previous = true) (hmem : w ∈ names)
    (hvalue : hasValue y = false) :
    accessCode names previous (w ++ y) = w ++ ".value" ++ accessCode names w.getLast? y := by
  cases h : usedAt? names previous (w ++ y) with
  | none =>
    have hnot := usedAt?_eq_none h hstart hmem rfl
    rw [endsBare_iff.mpr ⟨hy, hvalue⟩] at hnot
    cases hnot
  | some n =>
    obtain ⟨rfl, -⟩ := usedAt?_run hnames hw hy h
    obtain ⟨a, m, rfl⟩ := List.exists_cons_of_ne_nil hw.ne_nil
    exact accessCode_of_some h

/-- **A run that is no use is kept.** -/
theorem accessCode_pass (hw : IsRun w) (hy : Ended y)
    (hnot : ¬ (startsBare previous = true ∧ w ∈ names ∧ hasValue y = false)) :
    accessCode names previous (w ++ y) = w ++ accessCode names w.getLast? y := by
  have hnone : usedAt? names previous (w ++ y) = none := by
    cases h : usedAt? names previous (w ++ y) with
    | none => rfl
    | some n => exact absurd (usedAt?_run hnames hw hy h).2 hnot
  obtain ⟨a, m, rfl⟩ := List.exists_cons_of_ne_nil hw.ne_nil
  obtain ⟨ha, hm⟩ := List.forall_mem_cons.mp hw.parts
  rw [List.cons_append] at hnone ⊢
  rw [accessCode_of_none hnone, accessCode_inside hm ha]
  rfl

/-! ### Rewriting twice -/

/-- Where no name goes on, the rewritten text starts as the text does. -/
theorem head?_accessCode (hy : Ended y) (previous : Option Char) : (accessCode names previous y).head? = y.head? := by
  cases y with
  | nil => rw [accessCode_nil hnames]
  | cons c y => rw [accessCode_other hnames (hy c rfl)]; rfl

theorem ended_accessCode (hy : Ended y) (previous : Option Char) : Ended (accessCode names previous y) := by
  unfold Ended
  rwa [head?_accessCode hnames hy]

/-- Behind a point a run is kept. -/
theorem accessCode_member (hw : IsRun w) (hy : Ended y) :
    accessCode names (some '.') (w ++ y) = w ++ accessCode names w.getLast? y := by
  refine accessCode_pass hnames hw hy ?_
  rintro ⟨hstart, -⟩
  exact absurd hstart (by decide)

/-- Rewriting what follows a run makes and loses no member `.value`. -/
theorem hasValue_accessCode (hy : Ended y) (previous : Option Char) :
    hasValue (accessCode names previous y) = hasValue y := by
  cases y with
  | nil => rw [accessCode_nil hnames]
  | cons c y =>
    rw [accessCode_other hnames (hy c rfl)]
    by_cases hpoint : c = '.'
    · subst hpoint
      obtain ⟨w, z, rfl, hw, hz⟩ := exists_parts_append y
      by_cases hnil : w = []
      · rw [hnil]
        exact hasValue_point (ended_accessCode hnames hz _) hz []
      · rw [accessCode_member hnames ⟨hnil, hw⟩ hz]
        exact hasValue_point (ended_accessCode hnames hz _) hz w
    · rw [hasValue_other hpoint, hasValue_other hpoint]

/-- A run with its member is kept: the run is followed by `.value`, and the member stands behind a point. -/
theorem accessCode_value (hw : IsRun w) (hy : Ended y) (previous : Option Char) :
    accessCode names previous (w ++ (".value" ++ y)) = w ++ (".value" ++ accessCode names w.getLast? y) := by
  have hrun : accessCode names previous (w ++ (".value" ++ y)) = w ++ accessCode names w.getLast? (".value" ++ y) := by
    refine accessCode_pass hnames hw (.cons rfl _) ?_
    rintro ⟨-, -, hnone⟩
    rw [hasValue_value hy] at hnone
    cases hnone
  have hpoint : accessCode names w.getLast? (".value" ++ y) = '.' :: accessCode names (some '.') ("value" ++ y) :=
    accessCode_other hnames rfl _ _
  have hmember : accessCode names (some '.') ("value" ++ y) = "value" ++ accessCode names (some 'e') y :=
    accessCode_member hnames ⟨by decide, List.all_eq_true.mp (by decide)⟩ hy
  have hlast : startsBare (some 'e') = startsBare w.getLast? := hw.startsBare_last.symm
  rw [hrun, hpoint, hmember, accessCode_previous hlast]
  rfl

/-- **Rewritten code is not rewritten again.** -/
theorem accessCode_accessCode (previous : Option Char) (t : Text)
    (hfresh : ∀ c ∈ previous, Text.isNamePart c = true → Ended t) :
    accessCode names previous (accessCode names previous t) = accessCode names previous t := by
  refine run_induction ?_ ?_ ?_ previous t hfresh
  · intro previous
    rw [accessCode_nil hnames, accessCode_nil hnames]
  · intro previous c t hc ih
    rw [accessCode_other hnames hc, accessCode_other hnames hc, ih]
  · intro previous w y hw hy _ ih
    have hrest := ended_accessCode hnames hy w.getLast?
    have hvalue := hasValue_accessCode hnames hy w.getLast?
    by_cases huse : startsBare previous = true ∧ w ∈ names ∧ hasValue y = false
    · rw [accessCode_use hnames hw hy huse.1 huse.2.1 huse.2.2, List.append_assoc, accessCode_value hnames hw hrest, ih]
    · rw [accessCode_pass hnames hw hy huse, accessCode_pass hnames hw hrest (by rwa [hvalue]), ih]

end Rewriting

end Trellis.Code
