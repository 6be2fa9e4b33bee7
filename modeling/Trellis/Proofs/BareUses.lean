import Trellis.Proofs.MissingAwaits
import Trellis.Proofs.StateOrder

/-!
# Bare uses of state names

`accessCode` writes `.value` behind the bare uses of names and nothing else (`inserted_values`), and a piece of code
stays as it is exactly when no name is used bare in it (`accessCode_eq_self_iff`).  Names that hold no quote are looked
for on each side of a quote apart (`accessCode_barrier`).
-/

namespace Trellis.Code

variable {names : List Text} {b c : Char} {before n rest t x y : Text} {previous previous' : Option Char}

/-! ### Uses -/

/-- A name of the list is used bare in the text; `before` is the text before it, last character first. -/
def UsedFrom (names : List Text) (before t : Text) : Prop :=
  ∃ x n rest, t = x ++ (n ++ rest) ∧ n ∈ names ∧ startsBare (x.reverse ++ before).head? = true ∧ endsBare rest = true

/-- A name of the list is used bare in the text. -/
def Used (names : List Text) (t : Text) : Prop := UsedFrom names [] t

/-- Where `.value` is written: behind a bare use of a name. -/
structure ValuePlace (names : List Text) (before w rest : Text) : Prop where
  word : w = ".value"
  behind : ∃ n ∈ names, ∃ x, before = n.reverse ++ x ∧ startsBare x.head? = true
  bare : endsBare rest = true

/-- The name that is used at the start of a text, if one is. -/
def usedAt? (names : List Text) (previous : Option Char) (t : Text) : Option Text :=
  if startsBare previous then nameAt? names t else none

theorem usedAt?_eq_some (h : usedAt? names previous t = some n) :
    startsBare previous = true ∧ n ∈ names ∧ ∃ rest, t = n ++ rest ∧ endsBare rest = true := by
  unfold usedAt? at h
  split at h
  · next hbare =>
    obtain ⟨p, hfind, hp⟩ := nameAt?_eq_find? names t
    rw [hfind] at h
    exact ⟨hbare, List.mem_of_find?_eq_some h, (hp n).mp (List.find?_some h)⟩
  · cases h

theorem usedAt?_eq_none (h : usedAt? names previous t = none) (hbare : startsBare previous = true) (hn : n ∈ names)
    (ht : t = n ++ rest) : endsBare rest = false := by
  unfold usedAt? at h
  rw [if_pos hbare] at h
  obtain ⟨p, hfind, hp⟩ := nameAt?_eq_find? names t
  rw [hfind] at h
  by_contra hend
  have hpn := List.find?_eq_none.mp h n hn
  exact hpn ((hp n).mpr ⟨rest, ht, by simpa using hend⟩)

/-! ### The steps of the rewriting -/

theorem accessCode_nil_of_some (h : usedAt? names previous [] = some n) : accessCode names previous [] = ".value" := by
  unfold usedAt? at h
  rw [accessCode, h]
  rfl

theorem accessCode_nil_of_none (h : usedAt? names previous [] = none) : accessCode names previous [] = [] := by
  unfold usedAt? at h
  rw [accessCode, h]
  rfl

theorem accessCode_of_some {a : Char} (h : usedAt? names previous (a :: n ++ rest) = some (a :: n)) :
    accessCode names previous (a :: n ++ rest) =
      (a :: n) ++ ".value" ++ accessCode names (a :: n).getLast? rest := by
  unfold usedAt? at h
  rw [List.cons_append] at h ⊢
  rw [accessCode]
  simp only [h]
  congr 2
  simp

theorem accessCode_of_empty (h : usedAt? names previous (c :: t) = some []) :
    accessCode names previous (c :: t) = ".value" ++ c :: accessCode names (some c) t := by
  unfold usedAt? at h
  rw [accessCode]
  simp only [h]

theorem accessCode_of_none (h : usedAt? names previous (c :: t) = none) :
    accessCode names previous (c :: t) = c :: accessCode names (some c) t := by
  unfold usedAt? at h
  rw [accessCode]
  simp only [h]

theorem accessCode_previous (h : startsBare previous = startsBare previous') :
    accessCode names previous t = accessCode names previous' t := by
  rw [accessCode.eq_def, accessCode.eq_def names previous', h]

/-- A text is rewritten from its start on: a name that is used there is passed over whole. -/
theorem accessCode_induction (names : List Text) {motive : Option Char → Text → Prop}
    (atEnd : ∀ previous, motive previous [])
    (used : ∀ previous a n rest, usedAt? names previous (a :: n ++ rest) = some (a :: n) →
      motive (a :: n).getLast? rest → motive previous (a :: n ++ rest))
    (empty : ∀ previous c t, usedAt? names previous (c :: t) = some [] → motive (some c) t → motive previous (c :: t))
    (unused : ∀ previous c t, usedAt? names previous (c :: t) = none → motive (some c) t → motive previous (c :: t))
    (previous : Option Char) (t : Text) : motive previous t := by
  induction hlen : t.length using Nat.strongRecOn generalizing previous t with
  | _ k ih =>
    subst hlen
    cases t with
    | nil => exact atEnd previous
    | cons c t =>
      cases hused : usedAt? names previous (c :: t) with
      | none => exact unused previous c t hused (ih _ (by simp) _ _ rfl)
      | some n =>
        cases n with
        | nil => exact empty previous c t hused (ih _ (by simp) _ _ rfl)
        | cons a n =>
          obtain ⟨-, -, rest, hrest, -⟩ := usedAt?_eq_some hused
          rw [hrest] at hused ⊢
          -- the name is not empty, so what is left is shorter
          refine used previous a n rest hused (ih _ ?_ _ _ rfl)
          rw [hrest, List.length_append, List.length_cons]
          omega

/-! ### What is inserted, and when -/

theorem keep_append {P : Text → Text → Text → Prop} {u : Text} (x : Text)
    (h : Inserted P (x.reverse ++ before) t u) : Inserted P before (x ++ t) (x ++ u) := by
  induction x generalizing before with
  | nil => exact h
  | cons c x ih =>
    rw [List.reverse_cons, List.append_assoc] at h
    exact .keep c (ih h)

/-- `.value` is written behind bare uses only. -/
theorem inserted_values (names : List Text) (before t : Text) :
    Inserted (ValuePlace names) before t (accessCode names before.head? t) := by
  generalize hprevious : before.head? = previous
  induction previous, t using accessCode_induction names generalizing before with
  | atEnd previous =>
    cases hused : usedAt? names previous [] with
    | none =>
      rw [accessCode_nil_of_none hused]
      exact .nil
    | some n =>
      -- only the empty name can be used at the end
      obtain ⟨hbare, hn, rest, hrest, hend⟩ := usedAt?_eq_some hused
      obtain ⟨rfl, rfl⟩ := List.append_eq_nil_iff.mp hrest.symm
      rw [accessCode_nil_of_some hused, ← List.append_nil (String.toList ".value")]
      exact .insert ⟨rfl, ⟨[], hn, before, rfl, hprevious ▸ hbare⟩, hend⟩ .nil
  | used previous a n rest hused ih =>
    obtain ⟨hbare, hn, rest', hrest, hend⟩ := usedAt?_eq_some hused
    obtain rfl := List.append_cancel_left hrest
    rw [accessCode_of_some hused, List.append_assoc]
    -- what is read next stands behind the last character of the name
    have hlast : ((a :: n).reverse ++ before).head? = (a :: n).getLast? := by
      rw [List.head?_append_of_ne_nil _ (by simp), List.head?_reverse]
    exact keep_append (a :: n) (.insert ⟨rfl, ⟨a :: n, hn, before, rfl, hprevious ▸ hbare⟩, hend⟩ (ih _ hlast))
  | empty previous c t hused ih =>
    obtain ⟨hbare, hn, rest, hrest, hend⟩ := usedAt?_eq_some hused
    rw [accessCode_of_empty hused]
    rw [List.nil_append] at hrest
    exact .insert ⟨rfl, ⟨[], hn, before, rfl, hprevious ▸ hbare⟩, hrest ▸ hend⟩ (.keep c (ih (c :: before) rfl))
  | unused previous c t hused ih =>
    rw [accessCode_of_none hused]
    exact .keep c (ih (c :: before) rfl)

theorem length_le_accessCode (names : List Text) (previous : Option Char) (t : Text) :
    t.length ≤ (accessCode names previous t).length := by
  have h := (inserted_values names previous.toList t).length_le
  cases previous with
  | none => exact h
  | some c => exact h

theorem usedFrom_cons (h : usedAt? names before.head? (c :: t) = none) :
    UsedFrom names before (c :: t) ↔ UsedFrom names (c :: before) t := by
  constructor
  · rintro ⟨x, n, rest, hxy, hn, hstart, hend⟩
    cases x with
    | nil =>
      have hnot := usedAt?_eq_none h hstart hn hxy
      rw [hend] at hnot
      cases hnot
    | cons d x =>
      obtain ⟨rfl, rfl⟩ := List.cons.inj hxy
      rw [List.reverse_cons, List.append_assoc] at hstart
      exact ⟨x, n, rest, rfl, hn, hstart, hend⟩
  · rintro ⟨x, n, rest, rfl, hn, hstart, hend⟩
    refine ⟨c :: x, n, rest, rfl, hn, ?_, hend⟩
    rwa [List.reverse_cons, List.append_assoc]

theorem usedFrom_of_some (h : usedAt? names before.head? t = some n) : UsedFrom names before t := by
  obtain ⟨hbare, hn, rest, hrest, hend⟩ := usedAt?_eq_some h
  exact ⟨[], n, rest, hrest, hn, hbare, hend⟩

/-- A piece of code stays as it is exactly when no name is used bare in it. -/
theorem accessCode_eq_self_iff : accessCode names before.head? t = t ↔ ¬ UsedFrom names before t := by
  -- Where a name is used the text grows, and what was written behind the name does not shrink.
  have hvalue : List.length (".value" : Text) = 6 := rfl
  induction t generalizing before with
  | nil =>
    cases hused : usedAt? names before.head? [] with
    | some n =>
      rw [accessCode_nil_of_some hused]
      exact ⟨nofun, fun hnot => absurd (usedFrom_of_some hused) hnot⟩
    | none =>
      rw [accessCode_nil_of_none hused]
      refine ⟨fun _ => ?_, fun _ => rfl⟩
      rintro ⟨x, n, rest, hxy, hn, hstart, hend⟩
      obtain ⟨rfl, hnil⟩ := List.append_eq_nil_iff.mp hxy.symm
      have hnot := usedAt?_eq_none hused hstart hn hnil.symm
      rw [hend] at hnot
      cases hnot
  | cons c t ih =>
    cases hused : usedAt? names before.head? (c :: t) with
    | none =>
      have hrest : accessCode names (some c) t = t ↔ ¬ UsedFrom names (c :: before) t := @ih (c :: before)
      rw [accessCode_of_none hused, usedFrom_cons hused, ← hrest, List.cons.injEq]
      exact ⟨fun h => h.2, fun h => ⟨rfl, h⟩⟩
    | some n =>
      refine ⟨fun heq => ?_, fun hnot => absurd (usedFrom_of_some hused) hnot⟩
      have hlen := congrArg List.length heq
      cases n with
      | nil =>
        have hle := length_le_accessCode names (some c) t
        rw [accessCode_of_empty hused, List.length_append, List.length_cons, List.length_cons] at hlen
        omega
      | cons a n =>
        obtain ⟨-, -, rest, hrest, -⟩ := usedAt?_eq_some hused
        have hle := length_le_accessCode names (a :: n).getLast? rest
        rw [hrest] at hused hlen
        rw [accessCode_of_some hused, List.length_append, List.length_append, List.length_append] at hlen
        omega

theorem accessCode_none_eq_self_iff : accessCode names none t = t ↔ ¬ Used names t :=
  @accessCode_eq_self_iff names [] t

/-! ### Barriers -/

theorem after?_barrier (hb : b ∉ n) : Text.after? n (x ++ b :: y) = (Text.after? n x).map (· ++ b :: y) := by
  fun_induction Text.after? n x with
  | case1 x => rfl
  | case2 a n =>
    have hne : ¬ a = b := fun h => hb (h ▸ List.mem_cons_self)
    rw [List.nil_append, Text.after?, if_neg hne]
    rfl
  | case3 n a x ih =>
    rw [List.cons_append, Text.after?, if_pos rfl]
    exact ih fun h => hb (List.mem_cons_of_mem _ h)
  | case4 a n c x hne =>
    rw [List.cons_append, Text.after?, if_neg hne]
    rfl

theorem hasValue_barrier (hb : Text.isNamePart b = false) (hdot : b ≠ '.') : hasValue (x ++ b :: y) = hasValue x := by
  have hmem : b ∉ (".value" : Text) := by
    intro h
    rcases List.mem_cons.mp h with rfl | h
    · exact hdot rfl
    · have hall : ∀ c ∈ ("value" : Text), Text.isNamePart c = true := List.all_eq_true.mp (by decide)
      rw [hall b h] at hb
      cases hb
  have hword : Text.isWord b = false := (Bool.or_eq_false_iff.mp hb).1
  unfold hasValue
  rw [after?_barrier hmem]
  cases Text.after? ".value" x with
  | none => rfl
  | some r =>
    cases r with
    | nil => simp [hword]
    | cons c r => rfl

theorem endsBare_barrier (hb : Text.isNamePart b = false) (hdot : b ≠ '.') : endsBare (x ++ b :: y) = endsBare x := by
  unfold endsBare
  rw [hasValue_barrier hb hdot]
  cases x with
  | nil => simp [hb]
  | cons c x => rfl

theorem standsAt_barrier (hb : Text.isNamePart b = false) (hdot : b ≠ '.') (hn : b ∉ n) :
    StandsAt n (x ++ b :: y) ↔ StandsAt n x := by
  constructor
  · rintro ⟨rest, hrest, hend⟩
    have hafter := Text.after?_eq_some_iff.mpr hrest
    rw [after?_barrier hn] at hafter
    obtain ⟨rest', hx, rfl⟩ := Option.map_eq_some_iff.mp hafter
    rw [endsBare_barrier hb hdot] at hend
    exact ⟨rest', Text.after?_eq_some_iff.mp hx, hend⟩
  · rintro ⟨rest, rfl, hend⟩
    exact ⟨rest ++ b :: y, List.append_assoc .., by rwa [endsBare_barrier hb hdot]⟩

theorem nameAt?_congr {t t' : Text} (h : ∀ n ∈ names, StandsAt n t ↔ StandsAt n t') :
    nameAt? names t = nameAt? names t' := by
  obtain ⟨p, hfind, hp⟩ := nameAt?_eq_find? names t
  obtain ⟨p', hfind', hp'⟩ := nameAt?_eq_find? names t'
  rw [hfind, hfind']
  clear hfind hfind'
  induction names with
  | nil => rfl
  | cons n names ih =>
    obtain ⟨hn, h⟩ := List.forall_mem_cons.mp h
    have heq : p n = p' n := by rw [Bool.eq_iff_iff, hp, hp', hn]
    rw [List.find?_cons, List.find?_cons, heq, ih h]

/-- The names are looked for apart on the two sides of a barrier, a character that no name holds. -/
theorem accessCode_barrier (hb : Text.isNamePart b = false) (hdot : b ≠ '.')
    (hnames : ∀ n ∈ names, n ≠ [] ∧ b ∉ n) (previous : Option Char) (x y : Text) :
    accessCode names previous (x ++ b :: y) = accessCode names previous x ++ b :: accessCode names none y := by
  have hused : ∀ (previous : Option Char) (x : Text),
      usedAt? names previous (x ++ b :: y) = usedAt? names previous x := by
    intro previous x
    unfold usedAt?
    rw [nameAt?_congr fun n hn => standsAt_barrier hb hdot (hnames n hn).2]
  induction previous, x using accessCode_induction names with
  | atEnd previous =>
    -- the barrier comes next; no name is used there, and behind it a bare use may start
    have hnone : usedAt? names previous [] = none := by
      cases h : usedAt? names previous [] with
      | none => rfl
      | some n =>
        obtain ⟨-, hn, rest, hrest, -⟩ := usedAt?_eq_some h
        exact absurd (List.append_eq_nil_iff.mp hrest.symm).1 (hnames n hn).1
    have hstart : startsBare (some b) = startsBare none := by simp [startsBare, hb, hdot]
    have hb' : usedAt? names previous (b :: y) = none := (hused previous []).trans hnone
    rw [accessCode_nil_of_none hnone, List.nil_append, List.nil_append, accessCode_of_none hb',
      accessCode_previous hstart]
  | used previous a n rest h ih =>
    have h' : usedAt? names previous (a :: n ++ (rest ++ b :: y)) = some (a :: n) := by
      rw [← List.append_assoc, hused, h]
    rw [List.append_assoc, accessCode_of_some h', accessCode_of_some h, ih, ← List.append_assoc]
  | empty previous c t h ih =>
    obtain ⟨-, hn, -⟩ := usedAt?_eq_some h
    exact absurd rfl (hnames [] hn).1
  | unused previous c t h ih =>
    have h' : usedAt? names previous (c :: (t ++ b :: y)) = none := (hused previous (c :: t)).trans h
    rw [List.cons_append, accessCode_of_none h', accessCode_of_none h, ih, List.cons_append]

end Trellis.Code
