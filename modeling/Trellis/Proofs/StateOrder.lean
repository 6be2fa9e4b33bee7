import Trellis.Component.Generate
import Trellis.Document.Read

/-!
# The order of the state names

A component is generated from the set of its state names, and sets are listed in no particular order.  The names are
tried from the longest to the shortest, and names of one length in the order in which they are listed.  That order does
not show: names that stand at one place of a text are all prefixes of what follows, so those of one length are equal.
`nameAt?_eq_some_iff` says that the longest name is taken, whatever the order, and everything above it, from
`accessCode` to a whole component, only asks for that name.
-/

namespace Trellis

theorem Text.after?_eq_some_iff {p t rest : Text} : after? p t = some rest ↔ t = p ++ rest := by
  fun_induction after? p t with
  | case1 t =>
    rw [Option.some.injEq]
    exact Iff.rfl
  | case2 a p => exact ⟨nofun, nofun⟩
  | case3 p b t ih =>
    rw [ih, List.cons_append, List.cons.injEq]
    exact ⟨fun h => ⟨rfl, h⟩, fun h => h.2⟩
  | case4 a p b t hne =>
    refine ⟨nofun, fun h => ?_⟩
    exact absurd (List.cons.inj h).1.symm hne

namespace Code

/-! ### The name that is used -/

/-- Two lists of the same names, in any order and with any repetitions. -/
def SameNames (names names' : List Text) : Prop := ∀ n, n ∈ names ↔ n ∈ names'

/-- The name stands at the start of the text as a bare use. -/
def StandsAt (n t : Text) : Prop := ∃ rest, t = n ++ rest ∧ endsBare rest = true

/-- The longest of the names that stand at the start of the text. -/
structure LongestAt (names : List Text) (t n : Text) : Prop where
  mem : n ∈ names
  stands : StandsAt n t
  longest : ∀ m ∈ names, StandsAt m t → m.length ≤ n.length

variable {names names' : List Text} {m n t : Text}

/-- Two names of one length cannot stand at one place. -/
theorem StandsAt.eq_of_length (hm : StandsAt m t) (hn : StandsAt n t) (h : m.length = n.length) : m = n := by
  obtain ⟨rest, hm, -⟩ := hm
  obtain ⟨rest', hn, -⟩ := hn
  exact (List.append_inj (hm.symm.trans hn) h).1

theorem LongestAt.unique (hm : LongestAt names t m) (hn : LongestAt names t n) : m = n := by
  have hle := hn.longest m hm.mem hm.stands
  have hge := hm.longest n hn.mem hn.stands
  exact hm.stands.eq_of_length hn.stands (by omega)

theorem LongestAt.of_sameNames (h : SameNames names names') (hn : LongestAt names t n) : LongestAt names' t n :=
  ⟨(h n).mp hn.mem, hn.stands, fun m hm => hn.longest m ((h m).mpr hm)⟩

theorem nameAt?_eq_find? (names : List Text) (t : Text) :
    ∃ p : Text → Bool, nameAt? names t = names.find? p ∧ ∀ n, p n = true ↔ StandsAt n t := by
  refine ⟨_, rfl, fun n => ?_⟩
  constructor
  · intro h
    split at h
    · next rest hafter => exact ⟨rest, Text.after?_eq_some_iff.mp hafter, h⟩
    · cases h
  · rintro ⟨rest, ht, hbare⟩
    simp only [Text.after?_eq_some_iff.mpr ht, hbare]

/-- **The longest name is taken**, where the names are listed from the longest to the shortest. -/
theorem nameAt?_eq_some_iff (hsorted : names.Pairwise fun a b => b.length ≤ a.length) :
    nameAt? names t = some n ↔ LongestAt names t n := by
  obtain ⟨p, hfind, hp⟩ := nameAt?_eq_find? names t
  -- What is found is the longest: the names before it do not stand here, and those behind it are no longer.
  have hfound : ∀ a, names.find? p = some a → LongestAt names t a := by
    intro a ha
    obtain ⟨hpa, before, after, rfl, hbefore⟩ := List.find?_eq_some_iff_append.mp ha
    refine ⟨by simp, (hp a).mp hpa, fun m hm hstands => ?_⟩
    rcases List.mem_append.mp hm with hm | hm
    · have hpm := hbefore m hm
      rw [(hp m).mpr hstands] at hpm
      cases hpm
    · rcases List.mem_cons.mp hm with rfl | hm
      · exact Nat.le_refl _
      · exact (List.pairwise_cons.mp (List.pairwise_append.mp hsorted).2.1).1 m hm
  rw [hfind]
  constructor
  · exact hfound n
  · intro hn
    have hsome : (names.find? p).isSome = true := List.find?_isSome.mpr ⟨n, hn.mem, (hp n).mpr hn.stands⟩
    obtain ⟨a, ha⟩ := Option.isSome_iff_exists.mp hsome
    rw [ha, (hfound a ha).unique hn]

theorem pairwise_longestFirst (names : List Text) :
    (longestFirst names).Pairwise fun a b => b.length ≤ a.length := by
  have htrans : ∀ a b c : Text, decide (b.length ≤ a.length) = true → decide (c.length ≤ b.length) = true →
      decide (c.length ≤ a.length) = true := by
    intro a b c hab hbc
    rw [decide_eq_true_eq] at hab hbc ⊢
    omega
  have htotal : ∀ a b : Text, (decide (b.length ≤ a.length) || decide (a.length ≤ b.length)) = true := by
    intro a b
    rw [Bool.or_eq_true, decide_eq_true_eq, decide_eq_true_eq]
    omega
  exact (List.pairwise_mergeSort htrans htotal names).imp fun h => of_decide_eq_true h

theorem nameAt?_longestFirst (h : SameNames names names') :
    nameAt? (longestFirst names) = nameAt? (longestFirst names') := by
  have hsorted : SameNames (longestFirst names) (longestFirst names') := by
    intro n
    rw [longestFirst, longestFirst, List.mem_mergeSort, List.mem_mergeSort]
    exact h n
  funext t
  refine Option.ext fun n => ?_
  rw [nameAt?_eq_some_iff (pairwise_longestFirst names), nameAt?_eq_some_iff (pairwise_longestFirst names')]
  exact ⟨LongestAt.of_sameNames hsorted, LongestAt.of_sameNames fun m => (hsorted m).symm⟩

/-! ### Expressions -/

theorem accessCode_congr (h : nameAt? names = nameAt? names') : accessCode names = accessCode names' := by
  funext previous t
  fun_induction accessCode names previous t with
  | case1 previous used hused =>
    have hused : (if startsBare previous then nameAt? names [] else none).isSome = true := hused
    rw [accessCode, ← h, if_pos hused]
  | case2 previous used hused =>
    have hused : ¬ (if startsBare previous then nameAt? names [] else none).isSome = true := hused
    rw [accessCode, ← h, if_neg hused]
  | case3 previous c r a n used hused ih =>
    have hused : (if startsBare previous then nameAt? names (c :: r) else none) = some (a :: n) := hused
    rw [accessCode, ← h]
    simp only [hused, ih]
  | case4 previous c r used hused ih =>
    have hused : (if startsBare previous then nameAt? names (c :: r) else none) = some [] := hused
    rw [accessCode, ← h]
    simp only [hused, ih]
  | case5 previous c r used hused ih =>
    have hused : (if startsBare previous then nameAt? names (c :: r) else none) = none := hused
    rw [accessCode, ← h]
    simp only [hused, ih]

theorem accessTemplate_congr (h : nameAt? names = nameAt? names') : accessTemplate names = accessTemplate names' := by
  funext t
  fun_induction accessTemplate names t with
  | case1 => rw [accessTemplate]
  | case2 r rest hrest hlength ih =>
    rw [accessTemplate.eq_2]
    split
    · next rest' hrest' =>
      obtain rfl : rest = rest' := (List.cons.inj (hrest.symm.trans hrest')).2
      rw [accessCode_congr h, ih]
    · next hopen => exact absurd hrest (hopen rest)
  | case3 r hopen ih =>
    rw [accessTemplate.eq_2]
    split
    · next rest hrest => exact absurd hrest (hopen rest)
    · rw [ih]
  | case4 c r hplain ih => rw [accessTemplate.eq_3 _ _ _ hplain, ih]

theorem accessString_congr (h : nameAt? names = nameAt? names') : accessString names = accessString names' := by
  funext t
  unfold accessString
  rw [accessTemplate_congr h]

/-- The rewritten text depends on the set of the names only. -/
theorem accessState_congr (h : SameNames names names') : accessState names = accessState names' := by
  have hempty : names.isEmpty = names'.isEmpty := by
    rw [Bool.eq_iff_iff, List.isEmpty_iff, List.isEmpty_iff, List.eq_nil_iff_forall_not_mem,
      List.eq_nil_iff_forall_not_mem]
    exact forall_congr' fun n => not_congr (h n)
  have hname := nameAt?_longestFirst h
  funext t
  show (if names.isEmpty then t else accessCode (longestFirst names) none (segments t).code ++
      (segments t).strings.flatMap fun x =>
        accessString (longestFirst names) x.1 ++ accessCode (longestFirst names) none x.2) = _
  rw [hempty, accessCode_congr hname, accessString_congr hname]
  rfl

/-! ### Functions -/

variable {states states' : List Text}

theorem transform_congr (h : SameNames states states') : transform states = transform states' := by
  funext t
  unfold transform
  rw [accessState_congr h]

theorem assignLine_congr (h : SameNames states states') : assignLine states = assignLine states' := by
  have hcontains : ∀ n, states.contains n = states'.contains n := by
    intro n
    rw [Bool.eq_iff_iff, List.contains_iff_mem, List.contains_iff_mem]
    exact h n
  funext level scope target value
  unfold assignLine
  rw [hcontains]

mutual

theorem emit_congr (h : SameNames states states') (level : Nat) (scope : Scope) :
    ∀ s : Statement, emit states level scope s = emit states' level scope s
  | .comment text l => rfl
  | .cond condition body orelse l => by
    simp only [emit, transform_congr h, emitAll_congr h (level + 1) _ body, emitAll_congr h (level + 1) _ orelse]
  | .assign target value body l => by
    simp only [emit, transform_congr h, assignLine_congr h, emitAll_congr h (level + 1) _ body]
  | .raw text body l => by simp only [emit, transform_congr h, emitAll_congr h (level + 1) _ body]
  | .respond value l => by simp only [emit, transform_congr h]
  | .respondBlock block l => rfl

theorem emitAll_congr (h : SameNames states states') (level : Nat) (scope : Scope) :
    ∀ ss : List Statement, emitAll states level scope ss = emitAll states' level scope ss
  | [] => rfl
  | s :: ss => by simp only [emitAll, emit_congr h level scope s, emitAll_congr h level _ ss]

end

end Code

/-! ### Components -/

namespace Component

open Code (SameNames)

variable {states states' : List Text}

theorem functionLines_congr (h : SameNames states states') : functionLines states = functionLines states' := by
  funext f
  unfold functionLines
  rw [Code.emitAll_congr h]

theorem mountLines_congr (h : SameNames states states') : mountLines states = mountLines states' := by
  funext m
  unfold mountLines
  rw [Code.emitAll_congr h]

theorem generate_congr (h : SameNames states states') (path : Option Text) (indentSize : Nat) (d : Document) :
    generate path indentSize d states = generate path indentSize d states' := by
  unfold generate scriptLines blocks
  rw [functionLines_congr h, mountLines_congr h]

/-- **The order of the state names does not show.**  Two lists of the same names, in any order and with any repetitions,
rewrite every text alike, and so a component has the same text whatever the order in which the set of its state names is
listed. -/
theorem generate_any_order :
    (∀ names names' : List Text, SameNames names names' → ∀ t, Code.accessState names t = Code.accessState names' t) ∧
      ∀ (order : List Text) (path : Option Text) (indentSize : Nat) (d : Document),
        SameNames order (d.script.state.map (·.name)) →
          generate path indentSize d order = generate path indentSize d := by
  constructor
  · intro names names' h t
    rw [Code.accessState_congr h]
  · intro order path indentSize d h
    exact generate_congr h path indentSize d

/-- Names of which one is a prefix of another and one has a `$`, and a component that uses them. -/
theorem generate_any_order_prefixes :
    Code.accessState ["a", "a$", "ab"] "a$ + a.b + `$\x7bab\x7d`" =
        Code.accessState ["ab", "a$", "a", "a$"] "a$ + a.b + `$\x7bab\x7d`" ∧
      generate none 2 (Document.read none "state a = 1\nstate a$ = 2\nfn f()\n  a = a$ + a") ["a$", "a"] =
        generate none 2 (Document.read none "state a = 1\nstate a$ = 2\nfn f()\n  a = a$ + a") := by
  have hnames : SameNames ["a", "a$", "ab"] ["ab", "a$", "a", "a$"] := by
    intro n
    simp only [List.mem_cons, List.not_mem_nil, or_false]
    grind
  have hdeclared : (["a", "a$"] : List Text) =
      (Document.read none "state a = 1\nstate a$ = 2\nfn f()\n  a = a$ + a").script.state.map (·.name) := by
    decide +kernel
  have horder : SameNames ["a$", "a"] ["a", "a$"] := by
    intro n
    simp only [List.mem_cons, List.not_mem_nil, or_false]
    exact or_comm
  exact ⟨generate_any_order.1 _ _ hnames _, generate_any_order.2 _ none 2 _ (hdeclared ▸ horder)⟩

end Component

end Trellis
