import Trellis.Proofs.ValuePlaces

/-!
# Rewriting twice

A second run cuts the rewritten text anew, so what was inserted must move no string and no interpolation.  Strings stay
where they are by `segments_accessState`, interpolations by `hole?_accessTemplate`, and a piece of code that was rewritten
is not rewritten again, even when `value` itself is a state (`accessCode_accessCode`).  So state access is an insertion
that changes nothing when it is repeated (`accessState_stable`).
-/

namespace Trellis.Code

variable {names : List Text} {c : Char} {e r rest t : Text}

/-! ### Interpolations stay where they are -/

/-- An interpolation starts with a dollar sign and a brace, and the next brace closes it. -/
theorem hole?_eq_none_iff :
    hole? (c :: t) = none ↔ ¬ (c = '$' ∧ ∃ r, t = '\x7b' :: r ∧ (r.dropWhile isPlain).head? = some '\x7d') := by
  constructor
  · rintro hnone ⟨rfl, r, rfl, hclose⟩
    obtain ⟨rest, hrest⟩ := List.head?_eq_some_iff.mp hclose
    simp only [hole?, hrest] at hnone
    cases hnone
  · intro hnot
    cases hhole : hole? (c :: t) with
    | none => rfl
    | some x =>
      obtain ⟨heq, he⟩ := hole?_eq_some hhole
      obtain ⟨rfl, rfl⟩ := List.cons.inj heq
      have hbrace : isPlain '\x7d' = false := rfl
      refine absurd ⟨rfl, _, rfl, ?_⟩ hnot
      rw [(takeWhile_isPlain he hbrace).2]
      rfl

/-- A template string keeps its first character. -/
theorem accessTemplate_cons (names : List Text) (c : Char) (t : Text) :
    ∃ u, accessTemplate names (c :: t) = c :: u := by
  cases h : hole? (c :: t) with
  | none => exact ⟨_, accessTemplate_of_none h⟩
  | some x =>
    obtain ⟨rfl, -⟩ := List.cons.inj (hole?_eq_some h).1
    exact ⟨_, accessTemplate_of_some h⟩

/-- The first brace of a template string stays the first one. -/
theorem head?_dropWhile_accessTemplate (names : List Text) (t : Text) :
    ((accessTemplate names t).dropWhile isPlain).head? = (t.dropWhile isPlain).head? := by
  fun_induction template t with
  | case1 => rw [accessTemplate]
  | case2 c r e rest h hlength ih =>
    rw [accessTemplate_of_some h, (hole?_eq_some h).1]
    rfl
  | case3 c r h ih =>
    rw [accessTemplate_of_none h]
    by_cases hc : isPlain c = true
    · rw [List.dropWhile_cons_of_pos hc, List.dropWhile_cons_of_pos hc, ih]
    · rw [List.dropWhile_cons_of_neg hc, List.dropWhile_cons_of_neg hc]
      rfl

/-- Where no interpolation started, none starts in the rewritten text. -/
theorem hole?_accessTemplate (h : hole? (c :: t) = none) : hole? (c :: accessTemplate names t) = none := by
  rw [hole?_eq_none_iff] at h ⊢
  rintro ⟨rfl, r, hr, hclose⟩
  cases t with
  | nil =>
    rw [accessTemplate] at hr
    cases hr
  | cons d t =>
    obtain ⟨u, hu⟩ := accessTemplate_cons names d t
    obtain ⟨rfl, -⟩ := List.cons.inj (hu.symm.trans hr)
    rw [accessTemplate_of_none rfl] at hr
    obtain rfl := (List.cons.inj hr).2
    rw [head?_dropWhile_accessTemplate] at hclose
    exact h ⟨rfl, t, rfl, hclose⟩

theorem isPlain_accessCode (names : List Text) (h : ∀ c ∈ e, isPlain c = true) :
    ∀ c ∈ accessCode names none e, isPlain c = true := by
  refine (inserted_values names [] e).forall_mem ?_ h
  rintro x w rest ⟨rfl, -⟩
  exact List.all_eq_true.mp (by decide)

/-! ### Nothing is left to rewrite -/

section Twice

variable (hnames : ∀ n ∈ names, Text.isName n = true)

include hnames

theorem accessCode_twice (t : Text) : accessCode names none (accessCode names none t) = accessCode names none t :=
  accessCode_accessCode hnames none t nofun

theorem accessTemplate_twice (t : Text) : accessTemplate names (accessTemplate names t) = accessTemplate names t := by
  fun_induction template t with
  | case1 => rw [accessTemplate, accessTemplate]
  | case2 c r e rest h hlength ih =>
    have he := isPlain_accessCode names (hole?_eq_some h).2
    rw [accessTemplate_of_some h, accessTemplate_of_some (hole?_of_plain he _), accessCode_twice hnames, ih]
  | case3 c r h ih => rw [accessTemplate_of_none h, accessTemplate_of_none (hole?_accessTemplate h), ih]

theorem accessString_twice (s : Text) : accessString names (accessString names s) = accessString names s := by
  by_cases hs : s.head? = some '`'
  · obtain ⟨r, rfl⟩ := List.head?_eq_some_iff.mp hs
    have htemplate : ∀ r : Text, accessString names ('`' :: r) = accessTemplate names ('`' :: r) := fun r => if_pos rfl
    obtain ⟨u, hu⟩ := accessTemplate_cons names '`' r
    rw [htemplate, hu, htemplate, ← hu, accessTemplate_twice hnames]
  · have hsame : accessString names s = s := if_neg hs
    rw [hsame, hsame]

theorem access_access (s : Segments) : (s.access names).access names = s.access names := by
  have hsorted := isName_longestFirst hnames
  unfold Segments.access
  simp only [List.map_map, Function.comp_def, accessCode_twice hsorted, accessString_twice hsorted]

end Twice

/-- **State access is an insertion that settles**: for every text and all identifiers, `.value` is inserted behind
characters where one of the names ends, and a second run changes nothing. -/
theorem accessState_stable (hnames : ∀ n ∈ names, Text.isName n = true) (t : Text) :
    (∃ p : Nat → Bool, accessState names t = writeBehind ".value" p 0 t ∧
      ∀ x y, t = x ++ y → p x.length = true → ∃ n ∈ names, n <:+ x) ∧
    accessState names (accessState names t) = accessState names t := by
  constructor
  · obtain ⟨p, hwritten, hp⟩ := exists_places hnames t
    refine ⟨p, hwritten, fun x y hxy hx => ?_⟩
    obtain ⟨a, n, hn, rfl, -⟩ := (hp x y hxy).mp hx
    exact ⟨n, hn, List.suffix_append a n⟩
  · calc accessState names (accessState names t)
        = ((segments (accessState names t)).access names).flatten := (flatten_access names _).symm
      _ = ((segments t).access names).flatten := by rw [segments_accessState hnames, access_access hnames]
      _ = accessState names t := flatten_access names t

/-- A state called `value`: used in code, in an interpolation, in a string and behind a quote that is not closed. -/
theorem accessState_stable_value :
    (∀ n ∈ (["value"] : List Text), Text.isName n = true) ∧
      accessState ["value"] "value + `v$\x7bvalue\x7d` + 'value' + \"value" =
        "value.value + `v$\x7bvalue.value\x7d` + 'value' + \"value.value" ∧
      accessState ["value"] "value.value + `v$\x7bvalue.value\x7d` + 'value' + \"value.value" =
        "value.value + `v$\x7bvalue.value\x7d` + 'value' + \"value.value" := by
  have hnames : ∀ n ∈ (["value"] : List Text), Text.isName n = true := by decide +kernel
  have hfirst : accessState ["value"] "value + `v$\x7bvalue\x7d` + 'value' + \"value" =
      "value.value + `v$\x7bvalue.value\x7d` + 'value' + \"value.value" := by decide +kernel
  exact ⟨hnames, hfirst, hfirst ▸ (accessState_stable hnames _).2⟩

end Trellis.Code
