import Trellis.Proofs.FunctionBodies
import Trellis.Proofs.StringData

/-!
# The keyword `await`

Whether a text awaits is read off its code, the pieces outside its strings: the whole word `await` stands there, and not
as a member (`awaits`).  Writing `.value` behind the uses of states changes neither where the strings of a text are
(`segments_accessState`) nor whether it awaits (`awaits_accessState`).
-/

namespace Trellis.Code

variable {names states : List Text} {b c : Char} {before before' t u w rest x y : Text}

/-! ### Values behind names -/

theorem isNamePart_of_mem_name {n : Text} (hn : Text.isName n = true) : ∀ c ∈ n, Text.isNamePart c = true := by
  cases n with
  | nil => cases hn
  | cons c n =>
    obtain ⟨hstart, hall⟩ := Bool.and_eq_true_iff.mp hn
    exact List.forall_mem_cons.mpr ⟨Text.isNamePart_of_isNameStart hstart, List.all_eq_true.mp hall⟩

/-- A place for `.value` behind a character of a name. -/
structure BehindPart (before w rest : Text) : Prop where
  word : w = ".value"
  behind : ∃ c ∈ before.head?, Text.isNamePart c = true

/-- A place for `.value` behind a whole name. -/
structure BehindName (before w rest : Text) : Prop extends BehindPart before w rest where
  ends : ∀ c ∈ rest.head?, Text.isNamePart c = false

theorem head?_of_endsBare (h : endsBare rest = true) : ∀ c ∈ rest.head?, Text.isNamePart c = false := by
  intro c hc
  unfold endsBare at h
  rw [Option.mem_def.mp hc] at h
  simp only [Option.map_some, Option.getD_some, Bool.and_eq_true, Bool.not_eq_true'] at h
  exact h.1

/-- A name ends in a part of a name. -/
theorem exists_head_of_isName {n : Text} (hn : Text.isName n = true) (x : Text) :
    ∃ c ∈ (n.reverse ++ x).head?, Text.isNamePart c = true := by
  have hne : n.reverse ≠ [] := by
    intro hnil
    rw [List.reverse_eq_nil_iff.mp hnil] at hn
    cases hn
  obtain ⟨c, r, hr⟩ := List.exists_cons_of_ne_nil hne
  have hc : c ∈ n := List.mem_reverse.mp (hr ▸ List.mem_cons_self)
  refine ⟨c, ?_, isNamePart_of_mem_name hn c hc⟩
  rw [hr]
  rfl

theorem ValuePlace.behindName (hnames : ∀ n ∈ names, Text.isName n = true) (h : ValuePlace names before w rest) :
    BehindName before w rest := by
  obtain ⟨n, hn, x, rfl, -⟩ := h.behind
  exact ⟨⟨h.word, exists_head_of_isName (hnames n hn) x⟩, head?_of_endsBare h.bare⟩

theorem BehindPart.harmless (h : BehindPart before w rest) : Harmless before w rest := by
  obtain ⟨rfl, c, hc, hpart⟩ := h
  refine ⟨List.all_eq_true.mp (by decide), .inl ?_⟩
  rw [Option.mem_def.mp hc]
  intro heq
  rw [Option.some.inj heq] at hpart
  exact absurd hpart (by decide)

/-- What is written behind parts of names in a piece may be written in the whole text. -/
theorem Inserted.behindPart_of_nil (h : Inserted BehindPart [] t u) (before : Text) :
    Inserted BehindPart before t u := by
  refine h.rebase fun x w rest hw => ⟨hw.word, ?_⟩
  obtain ⟨c, hc, hpart⟩ := hw.behind
  cases x with
  | nil => cases hc
  | cons d x => exact ⟨c, hc, hpart⟩

theorem Inserted.append_behindPart (h : Inserted BehindPart before t u) {t' u' : Text}
    (h' : Inserted BehindPart (t.reverse ++ before) t' u') : Inserted BehindPart before (t ++ t') (u ++ u') :=
  h.append h' fun _ _ _ hw => ⟨hw.word, hw.behind⟩

theorem inserted_names (hnames : ∀ n ∈ names, Text.isName n = true) (t : Text) :
    Inserted BehindName [] t (accessCode names none t) :=
  (inserted_values names [] t).mono fun _ _ _ hw => hw.behindName hnames

theorem inserted_parts (hnames : ∀ n ∈ names, Text.isName n = true) (before t : Text) :
    Inserted BehindPart before t (accessCode names none t) :=
  ((inserted_names hnames t).mono fun _ _ _ hw => hw.toBehindPart).behindPart_of_nil before

theorem inserted_template (hnames : ∀ n ∈ names, Text.isName n = true) (before t : Text) :
    Inserted BehindPart before t (accessTemplate names t) := by
  fun_induction template t generalizing before with
  | case1 =>
    rw [accessTemplate]
    exact .nil
  | case2 c r e rest h hlength ih =>
    rw [accessTemplate_of_some h, (hole?_eq_some h).1]
    exact .keep '$' (.keep '\x7b' ((inserted_parts hnames _ e).append_behindPart (.keep '\x7d' (ih _))))
  | case3 c r h ih =>
    rw [accessTemplate_of_none h]
    exact .keep c (ih _)

theorem inserted_string (hnames : ∀ n ∈ names, Text.isName n = true) (before t : Text) :
    Inserted BehindPart before t (accessString names t) := by
  unfold accessString
  split
  · exact inserted_template hnames before t
  · exact .refl before t

/-- A last character that is no part of a name stays the last one. -/
theorem Inserted.exists_concat (h : Inserted BehindPart before (x ++ [b]) u) (hb : Text.isNamePart b = false) :
    ∃ u', u = u' ++ [b] := by
  generalize ht : x ++ [b] = t at h
  induction h generalizing x with
  | nil => simp at ht
  | @keep before t u c h ih =>
    cases x with
    | nil =>
      obtain ⟨rfl, rfl⟩ := List.cons.inj ht
      cases h with
      | nil => exact ⟨[], rfl⟩
      | insert hw _ =>
        -- an insertion behind `b` would need `b` to be a part of a name
        obtain ⟨c, hc, hpart⟩ := hw.behind
        obtain rfl : b = c := Option.some.inj hc
        rw [hb] at hpart
        cases hpart
    | cons d x =>
      obtain ⟨rfl, rfl⟩ := List.cons.inj ht
      obtain ⟨u', rfl⟩ := ih rfl
      exact ⟨d :: u', rfl⟩
  | @insert before t u w _ h ih =>
    obtain ⟨u', rfl⟩ := ih ht
    exact ⟨w ++ u', (List.append_assoc _ _ _).symm⟩

theorem stringPadded_accessString (hnames : ∀ n ∈ names, Text.isName n = true) {s : Text} (hs : IsString s) :
    StringPadded s (accessString names s) := by
  cases hs with
  | @intro q b hq hend =>
    by_cases htick : q = '`'
    · subst htick
      have hpart : Text.isNamePart '`' = false := by decide
      have haccess : accessString names ('`' :: (b ++ ['`'])) = '`' :: accessTemplate names (b ++ ['`']) :=
        (if_pos rfl).trans (accessTemplate_of_none rfl)
      have hins := inserted_template hnames ['`'] (b ++ ['`'])
      obtain ⟨u, hu⟩ := hins.exists_concat hpart
      rw [haccess, hu]
      rw [hu] at hins
      have hharmless := hins.mono fun _ _ _ hw => hw.harmless
      exact .intro hq hend (takeString?_of_concat hq hharmless hend) hharmless
    · have haccess : accessString names (q :: (b ++ [q])) = q :: (b ++ [q]) := if_neg (by simp [htick])
      rw [haccess]
      exact .intro hq hend hend (.refl _ _)

theorem isName_longestFirst (hstates : ∀ n ∈ states, Text.isName n = true) :
    ∀ n ∈ longestFirst states, Text.isName n = true :=
  fun n hn => hstates n (mem_longestFirst.mp hn)

/-- The pieces of a text with the uses of states written through their cells. -/
def Segments.access (states : List Text) (s : Segments) : Segments :=
  ⟨accessCode (longestFirst states) none s.code,
    s.strings.map fun x => (accessString (longestFirst states) x.1, accessCode (longestFirst states) none x.2)⟩

theorem flatten_access (states : List Text) (t : Text) :
    ((segments t).access states).flatten = accessState states t := by
  rw [accessState_eq]
  unfold Segments.access Segments.flatten
  rw [List.flatMap_map]

/-- **Strings stay where they are** when `.value` is written behind the uses of states. -/
theorem segments_accessState (hstates : ∀ n ∈ states, Text.isName n = true) (t : Text) :
    segments (accessState states t) = (segments t).access states := by
  have hnames := isName_longestFirst hstates
  have hcode : ∀ c, Inserted Harmless [] c (accessCode (longestFirst states) none c) :=
    fun c => (inserted_parts hnames [] c).mono fun _ _ _ hw => hw.harmless
  have hpad : (segments t).Padded ((segments t).access states) := by
    refine ⟨hcode _, List.forall₂_map_right_iff.mpr (List.forall₂_same.mpr fun x hx => ?_)⟩
    exact ⟨stringPadded_accessString hnames (isString_segments t x hx), hcode _⟩
  rw [← flatten_access]
  exact segments_flatten_of_padded t hpad

/-- In a whole text, too, `.value` is written only behind parts of names. -/
theorem inserted_accessState (hstates : ∀ n ∈ states, Text.isName n = true) (t : Text) :
    Inserted BehindPart [] t (accessState states t) := by
  have hnames := isName_longestFirst hstates
  have hstrings : ∀ (strings : List (Text × Text)) (before : Text),
      Inserted BehindPart before (strings.flatMap fun x => x.1 ++ x.2) (strings.flatMap fun x =>
        accessString (longestFirst states) x.1 ++ accessCode (longestFirst states) none x.2) := by
    intro strings
    induction strings with
    | nil => exact fun _ => .nil
    | cons x strings ih =>
      intro before
      have hfirst := (inserted_string hnames before x.1).append_behindPart (inserted_parts hnames _ x.2)
      exact hfirst.append_behindPart (ih _)
  have hwhole := (inserted_parts hnames [] (segments t).code).append_behindPart (hstrings (segments t).strings _)
  rw [← accessState_eq] at hwhole
  have hflat : (segments t).code ++ (segments t).strings.flatMap (fun x => x.1 ++ x.2) = t := flatten_segments t
  rwa [hflat] at hwhole

/-- Behind no part of a name the next character is kept, with nothing before it. -/
theorem Inserted.first_kept (h : Inserted BehindPart before t u) (hb : ∀ c ∈ before.head?, Text.isNamePart c = false) :
    (t = [] ∧ u = []) ∨ ∃ c t' u', t = c :: t' ∧ u = c :: u' ∧ Inserted BehindPart (c :: before) t' u' := by
  cases h with
  | nil => exact .inl ⟨rfl, rfl⟩
  | keep c h => exact .inr ⟨c, _, _, rfl, rfl, h⟩
  | insert hw _ =>
    obtain ⟨c, hc, hpart⟩ := hw.behind
    rw [hb c hc] at hpart
    cases hpart

/-- A text is a comment as it was when `.value` is written behind the uses of states. -/
theorem startsWith_accessState (hstates : ∀ n ∈ states, Text.isName n = true) (t : Text) :
    Text.startsWith (accessState states t) "//" = Text.startsWith t "//" := by
  rcases (inserted_accessState hstates t).first_kept (by simp) with ⟨ht, hu⟩ | ⟨c, t', u', ht, hu, h⟩
  · rw [hu, ht]
  · rw [hu, ht]
    unfold Text.startsWith
    show (if '/' = c then Text.after? ['/'] u' else none).isSome =
      (if '/' = c then Text.after? ['/'] t' else none).isSome
    by_cases hc : '/' = c
    · rw [if_pos hc, if_pos hc]
      have hpart : ∀ d ∈ [c].head?, Text.isNamePart d = false := by
        rintro d ⟨⟩
        rw [← hc]
        decide
      rcases h.first_kept hpart with ⟨rfl, rfl⟩ | ⟨d, t'', u'', rfl, rfl, -⟩
      · rfl
      · show (if '/' = d then some u'' else none).isSome = (if '/' = d then some t'' else none).isSome
        split <;> rfl
    · rw [if_neg hc, if_neg hc]

/-! ### The keyword -/

/-- The number of points at the end of the text before, last character first. -/
def dots (before : Text) : Nat := (before.takeWhile (· = '.')).length

/-- A word that starts here is a whole word: it stands behind no part of a name, and behind no point but the three of a
spread. -/
def startsWord (before : Text) : Bool :=
  !before.head?.any Text.isNamePart && !(0 < dots before && dots before < 3)

/-- The word `await` stands in a piece of code; `before` is the code before it, last character first. -/
def mentionsAwait (before : Text) : Text → Bool
  | [] => false
  | c :: t =>
    (startsWord before && (c :: t).takeWhile Text.isNamePart = "await") || mentionsAwait (c :: before) t

/-- The pieces of code of a text that was cut at its strings. -/
def Segments.codes (s : Segments) : List Text := s.code :: s.strings.map (·.2)

/-- The text holds the keyword `await` outside its strings. -/
def awaits (t : Text) : Bool := (segments t).codes.any (mentionsAwait [])

/-- Two texts end alike for a word behind them. -/
structure SameLead (before before' : Text) : Prop where
  points : dots before = dots before'
  part : before.head?.any Text.isNamePart = before'.head?.any Text.isNamePart

theorem SameLead.cons (h : SameLead before before') (c : Char) : SameLead (c :: before) (c :: before') := by
  refine ⟨?_, rfl⟩
  unfold dots
  by_cases hc : c = '.'
  · simpa [hc, dots] using h.points
  · simp [hc]

theorem SameLead.startsWord (h : SameLead before before') : startsWord before = startsWord before' := by
  unfold Code.startsWord
  rw [h.points, h.part]

theorem mentionsAwait_congr (h : SameLead before before') (t : Text) :
    mentionsAwait before t = mentionsAwait before' t := by
  induction t generalizing before before' with
  | nil => rfl
  | cons c t ih => rw [mentionsAwait, mentionsAwait, h.startsWord, ih (h.cons c)]

/-- No word starts with a character that is no part of a name. -/
theorem mentionsAwait_cons (hc : Text.isNamePart c = false) (before t : Text) :
    mentionsAwait before (c :: t) = mentionsAwait (c :: before) t := by
  have hnone : (c :: t).takeWhile Text.isNamePart = [] := List.takeWhile_cons_of_neg (by simp [hc])
  rw [mentionsAwait, hnone]
  simp

theorem mentionsAwait_of_forall (ht : ∀ c ∈ t, Text.isNamePart c = false) (before : Text) :
    mentionsAwait before t = false := by
  induction t generalizing before with
  | nil => rfl
  | cons c t ih =>
    obtain ⟨hc, ht⟩ := List.forall_mem_cons.mp ht
    rw [mentionsAwait_cons hc, ih ht]

theorem takeWhile_append_of_head {p : Char → Bool} (hy : ∀ c ∈ y.head?, p c = false) (x : Text) :
    (x ++ y).takeWhile p = x.takeWhile p := by
  cases y with
  | nil => rw [List.append_nil]
  | cons c y => exact Text.takeWhile_barrier (hy c rfl)

/-- Code whose second part continues no word of the first mentions what either part mentions. -/
theorem mentionsAwait_append (hy : ∀ c ∈ y.head?, Text.isNamePart c = false) (before x : Text) :
    mentionsAwait before (x ++ y) = (mentionsAwait before x || mentionsAwait (x.reverse ++ before) y) := by
  induction x generalizing before with
  | nil => rfl
  | cons c x ih =>
    have hword : (c :: x ++ y).takeWhile Text.isNamePart = (c :: x).takeWhile Text.isNamePart :=
      takeWhile_append_of_head hy (c :: x)
    rw [List.cons_append] at hword
    rw [List.cons_append, mentionsAwait, hword, ih, mentionsAwait, Bool.or_assoc, List.reverse_cons, List.append_assoc]
    rfl

/-- A character that is no part of a name and no point parts the words around it. -/
theorem mentionsAwait_barrier (hb : Text.isNamePart b = false) (hdot : b ≠ '.') (before x y : Text) :
    mentionsAwait before (x ++ b :: y) = (mentionsAwait before x || mentionsAwait [] y) := by
  have hstop : ∀ c ∈ (b :: y).head?, Text.isNamePart c = false := by
    rintro c ⟨⟩
    exact hb
  have hlead : SameLead (b :: (x.reverse ++ before)) [] := by
    refine ⟨?_, by simp [hb]⟩
    simp [dots, hdot]
  rw [mentionsAwait_append hstop, mentionsAwait_cons hb, mentionsAwait_congr hlead]

/-- A word that goes on is no new one. -/
theorem mentionsAwait_parts (hx : ∀ c ∈ x, Text.isNamePart c = true) (hbefore : startsWord before = false) (u : Text) :
    mentionsAwait before (x ++ u) = mentionsAwait (x.reverse ++ before) u := by
  induction x generalizing before with
  | nil => rfl
  | cons c x ih =>
    obtain ⟨hc, hx⟩ := List.forall_mem_cons.mp hx
    have hnext : startsWord (c :: before) = false := by simp [startsWord, hc]
    rw [List.cons_append, mentionsAwait, hbefore, Bool.false_and, Bool.false_or, ih hx hnext, List.reverse_cons,
      List.append_assoc]
    rfl

theorem dots_of_part (h : before.head?.any Text.isNamePart = true) : dots before = 0 := by
  cases before with
  | nil => rfl
  | cons c before =>
    have hc : c ≠ '.' := by
      rintro rfl
      exact absurd (show Text.isNamePart '.' = true from h) (by decide)
    simp [dots, hc]

/-! ### The keyword behind rewritten states -/

theorem takeWhile_inserted (h : Inserted BehindName before t u) :
    t.takeWhile Text.isNamePart = u.takeWhile Text.isNamePart := by
  have hdot : Text.isNamePart '.' = false := by decide
  induction h with
  | nil => rfl
  | keep c _ ih => rw [List.takeWhile_cons, List.takeWhile_cons, ih]
  | @insert before t u w hw _ _ =>
    obtain ⟨⟨rfl, -⟩, hend⟩ := hw
    have ht : t.takeWhile Text.isNamePart = [] := takeWhile_append_of_head hend []
    have hvalue : ('.' :: (("value" : Text) ++ u)).takeWhile Text.isNamePart = [] :=
      List.takeWhile_cons_of_neg (by simp [hdot])
    rw [ht]
    exact hvalue.symm

/-- Where `.value` is written behind names, the same words are mentioned: it is a member itself, and it ends like the
name before it. -/
theorem mentionsAwait_inserted (h : Inserted BehindName before t u) (hlead : SameLead before before') :
    mentionsAwait before t = mentionsAwait before' u := by
  induction h generalizing before' with
  | nil => rfl
  | keep c h ih =>
    have hword := takeWhile_inserted (.keep c h)
    rw [mentionsAwait, mentionsAwait, hlead.startsWord, hword, ih (hlead.cons c)]
  | @insert before t u w hw _ ih =>
    obtain ⟨⟨rfl, c, hc, hpart⟩, -⟩ := hw
    have hbefore : before'.head?.any Text.isNamePart = true := by
      rw [← hlead.part, Option.mem_def.mp hc]
      exact hpart
    -- `value` stands behind a point, so it is no word of its own
    have hmember : startsWord ('.' :: before') = false := by
      have hdots := dots_of_part hbefore
      unfold dots at hdots
      simp [startsWord, dots, hdots]
    have hvalue : mentionsAwait before' (".value" ++ u) = mentionsAwait ("eulav." ++ before') u :=
      (mentionsAwait_cons (by decide) before' _).trans
        (mentionsAwait_parts (x := ("value" : Text)) (List.all_eq_true.mp (by decide)) hmember u)
    have hlast : (("eulav." : Text) ++ before').head?.any Text.isNamePart = true := by
      show Text.isNamePart 'e' = true
      decide
    -- both texts go on behind a part of a name
    have hlead' : SameLead before ("eulav." ++ before') := by
      have hpart' : before.head?.any Text.isNamePart = true := hlead.part.trans hbefore
      exact ⟨(dots_of_part hpart').trans (dots_of_part hlast).symm, hpart'.trans hlast.symm⟩
    rw [hvalue, ih hlead']

theorem mentionsAwait_accessCode (hnames : ∀ n ∈ names, Text.isName n = true) (t : Text) :
    mentionsAwait [] (accessCode names none t) = mentionsAwait [] t :=
  (mentionsAwait_inserted (inserted_names hnames t) ⟨rfl, rfl⟩).symm

/-- **A text awaits as it did** when `.value` is written behind the uses of states. -/
theorem awaits_accessState (hstates : ∀ n ∈ states, Text.isName n = true) (t : Text) :
    awaits (accessState states t) = awaits t := by
  have hcode := mentionsAwait_accessCode (isName_longestFirst hstates)
  unfold awaits
  rw [segments_accessState hstates]
  simp only [Segments.codes, Segments.access, List.any_cons, List.any_map, List.map_map, Function.comp_def, hcode]

/-! ### The keyword in a line -/

/-- What a line starts with, up to a character that parts words, counts on its own. -/
theorem awaits_prepend (hx : ∀ c ∈ x ++ [b], isInert c = true) (hb : Text.isNamePart b = false) (hdot : b ≠ '.')
    (t : Text) : awaits (x ++ [b] ++ t) = (mentionsAwait [] x || awaits t) := by
  unfold awaits
  rw [segments_inert_append hx]
  unfold Segments.codes
  rw [List.any_cons, List.any_cons, List.append_assoc, List.singleton_append, mentionsAwait_barrier hb hdot,
    Bool.or_assoc]

/-- Plain text behind a text closes no string. -/
theorem takeString?_append_inert {q : Char} (hq : isQuote q = true) (hy : ∀ c ∈ y, isInert c = true) (t : Text) :
    takeString? q (t ++ y) = (takeString? q t).map fun p => (p.1, p.2 ++ y) := by
  have hplain : ∀ {y : Text}, (∀ c ∈ y, isInert c = true) → takeString? q y = none := by
    intro y hy
    have hnone := takeString?_inert_append hq hy []
    rwa [List.append_nil, show takeString? q [] = none from rfl, Option.map_none] at hnone
  fun_induction takeString? q t with
  | case1 => exact hplain hy
  | case2 t => exact takeString?_self q (t ++ y)
  | case3 hne =>
    -- the text ends with a backslash, which protects the first character behind it
    rw [List.singleton_append, takeString?_backslash hq, Option.map_none, Option.map_eq_none_iff]
    cases y with
    | nil => rfl
    | cons d y =>
      obtain ⟨hd, hy⟩ := List.forall_mem_cons.mp hy
      rw [takeProtected?_inert hq hd, hplain (List.forall_mem_cons.mpr ⟨hd, hy⟩)]
  | case4 t hne =>
    rw [List.cons_append, takeString?_backslash hq]
    rfl
  | case5 d t hd hne ih =>
    rw [List.cons_append, takeString?_backslash hq, List.cons_append, takeProtected?, if_neg hd, ih, Option.map_map,
      Option.map_map, Option.map_map]
    rfl
  | case6 c t hne hc ih =>
    rw [List.cons_append, takeString?_other hne hc, ih, Option.map_map, Option.map_map]
    rfl

/-- The pieces of code of two texts are the same but for what stands behind the last piece of the first. -/
def CodesExtended (y : Text) (s s' : Segments) : Prop :=
  ∃ front last, s.codes = front ++ [last] ∧ s'.codes = front ++ [last ++ y]

theorem CodesExtended.cons {s s' : Segments} (h : CodesExtended y s s') (c : Char) :
    CodesExtended y ⟨c :: s.code, s.strings⟩ ⟨c :: s'.code, s'.strings⟩ := by
  obtain ⟨front, last, hs, hs'⟩ := h
  unfold Segments.codes at hs hs'
  cases front with
  | nil =>
    obtain ⟨hcode, hstrings⟩ := List.cons.inj hs
    obtain ⟨hcode', hstrings'⟩ := List.cons.inj hs'
    refine ⟨[], c :: last, ?_, ?_⟩
    · rw [Segments.codes, hcode, hstrings]
      rfl
    · rw [Segments.codes, hcode', hstrings']
      rfl
  | cons first front =>
    obtain ⟨hcode, hstrings⟩ := List.cons.inj hs
    obtain ⟨hcode', hstrings'⟩ := List.cons.inj hs'
    refine ⟨(c :: first) :: front, last, ?_, ?_⟩
    · rw [Segments.codes, hcode, hstrings]
      rfl
    · rw [Segments.codes, hcode', hstrings']
      rfl

/-- Plain text behind a text goes to its last piece of code. -/
theorem codesExtended_append (hy : ∀ c ∈ y, isInert c = true) (t : Text) :
    CodesExtended y (segments t) (segments (t ++ y)) := by
  fun_induction segments t with
  | case1 =>
    have hplain := segments_inert_append hy []
    rw [List.append_nil] at hplain
    refine ⟨[], [], rfl, ?_⟩
    rw [List.nil_append, hplain, segments]
    simp [Segments.codes]
  | case2 c r hq b rest hb hlength s ih =>
    -- a string that is closed stays as it is, and the text behind it gets the addition
    obtain ⟨front, last, hs, hs'⟩ := ih
    have hstring := takeString?_extend hb []
    rw [List.append_nil] at hstring
    have hcut := segments_string hq hstring (rest ++ y)
    rw [List.cons_append, ← List.append_assoc, ← takeString?_append hb] at hcut
    refine ⟨[] :: front, last, ?_, ?_⟩
    · show [] :: s.codes = _
      rw [hs, List.cons_append]
    · rw [List.cons_append, hcut]
      show [] :: (segments (rest ++ y)).codes = _
      rw [hs', List.cons_append]
  | case3 c r hq hb s ih =>
    -- a quote that opens no string opens none with plain text behind either
    have hnone : takeString? c (r ++ y) = none := by
      rw [takeString?_append_inert hq hy, hb]
      rfl
    rw [List.cons_append, segments_cons_of_none hnone]
    exact ih.cons c
  | case4 c r hq s ih =>
    rw [List.cons_append, segments_cons_of_not_isQuote (by simpa using hq)]
    exact ih.cons c

/-- What a line ends with mentions nothing when it holds no word. -/
theorem awaits_append (hy : ∀ c ∈ y, isInert c = true ∧ Text.isNamePart c = false) (t : Text) :
    awaits (t ++ y) = awaits t := by
  obtain ⟨front, last, ht, hty⟩ := codesExtended_append (fun c hc => (hy c hc).1) t
  have hlast : mentionsAwait [] (last ++ y) = mentionsAwait [] last := by
    rw [mentionsAwait_append fun c hc => (hy c (List.mem_of_mem_head? hc)).2,
      mentionsAwait_of_forall fun c hc => (hy c hc).2, Bool.or_false]
  unfold awaits
  rw [ht, hty, List.any_append, List.any_append, List.any_cons, List.any_cons, hlast]

/-! ### Inserted awaits -/

/-- A word at the start of a text stays there when nothing is put before a part of a name. -/
theorem Inserted.prefix_kept {P : Text → Text → Text → Prop} {v : Text}
    (hP : ∀ x w rest, P x w rest → ∀ c ∈ rest.head?, Text.isNamePart c = false)
    (hv : ∀ c ∈ v, Text.isNamePart c = true) (h : Inserted P before (v ++ y) u) : v <+: u := by
  induction v generalizing before u with
  | nil => exact List.nil_prefix
  | cons a v ih =>
    obtain ⟨ha, hv⟩ := List.forall_mem_cons.mp hv
    rw [List.cons_append] at h
    cases h with
    | keep _ h => exact List.cons_prefix_cons.mpr ⟨rfl, ih hv h⟩
    | insert hw _ =>
      have hstop := hP _ _ _ hw a rfl
      rw [ha] at hstop
      cases hstop

/-- A word of a text stays whole when nothing is put before a part of a name. -/
theorem Inserted.infix_kept {P : Text → Text → Text → Prop} {v : Text}
    (hP : ∀ x w rest, P x w rest → ∀ c ∈ rest.head?, Text.isNamePart c = false)
    (hv : ∀ c ∈ v, Text.isNamePart c = true) (h : Inserted P before t u) (ht : v <:+: t) : v <:+: u := by
  induction h with
  | nil => exact ht
  | @keep before t u c h ih =>
    rcases List.infix_cons_iff.mp ht with ⟨r, hr⟩ | ht
    · have hwhole : Inserted P before (c :: t) (c :: u) := .keep c h
      rw [← hr] at hwhole
      exact (hwhole.prefix_kept hP hv).isInfix
    · exact (ih ht).trans (List.suffix_cons c _).isInfix
  | insert _ _ ih => exact (ih ht).trans (List.suffix_append _ _).isInfix

theorem infix_withAwaitsFrom (h : LacksAwaitFrom before t) : ("await" : Text) <:+: withAwaitsFrom before t := by
  induction t generalizing before with
  | nil => exact absurd h not_lacksAwaitFrom_nil
  | cons c t ih =>
    cases hneeds : needsAwait before (c :: t) with
    | true =>
      rw [withAwaitsFrom_of_needs hneeds]
      exact ⟨[], ' ' :: c :: withAwaitsFrom (c :: before) t, rfl⟩
    | false =>
      rw [withAwaitsFrom_of_not_needs hneeds]
      have hrest : LacksAwaitFrom (c :: before) t :=
        (lacksAwaitFrom_cons.mp h).resolve_left (by rw [hneeds]; exact Bool.false_ne_true)
      exact (ih hrest).trans (List.suffix_cons c _).isInfix

/-- Some piece of a text that lacks an await lacks one itself. -/
theorem exists_lacking_piece (h : LacksAwait t) : ∃ p ∈ pieces t, LacksAwait p.text := by
  by_contra hnone
  have hkept : ∀ p ∈ pieces t, Piece.rewritten [] p = p.text := by
    intro p hp
    have hsame : withAwaits p.text = p.text := withAwaitsFrom_eq_self_iff.mpr fun hlacks => hnone ⟨p, hp, hlacks⟩
    have hcode : ∀ e, rewriteCode [] e = withAwaits e := by
      intro e
      rw [rewriteCode, show longestFirst [] = [] by simp [longestFirst], accessCode_no_names]
    cases p with
    | code e => exact (hcode e).trans hsame
    | interpolation e => exact (hcode e).trans hsame
    | quoted e => exact hsame
    | template e => exact hsame
  have hwhole : withAwaits t = t := by
    calc withAwaits t = (transform [] t).1 := rfl
      _ = (pieces t).flatMap (Piece.rewritten []) := rewritten_pieces [] t
      _ = (pieces t).flatMap Piece.text := List.flatMap_congr hkept
      _ = t := text_pieces t
  exact withAwaitsFrom_eq_self_iff.mp hwhole h

/-- Where an await is inserted, it is in what is written. -/
theorem infix_transform (states : List Text) (h : LacksAwait t) : ("await" : Text) <:+: (transform states t).1 := by
  obtain ⟨p, hp, hlacks⟩ := exists_lacking_piece h
  have hword : ∀ c ∈ ("await" : Text), Text.isNamePart c = true := List.all_eq_true.mp (by decide)
  have hpiece : ("await" : Text) <:+: p.rewritten states := by
    have hcode : ("await" : Text) <:+: rewriteCode states p.text :=
      (inserted_rewriteCode states p.text).2.infix_kept (fun _ _ _ hw => head?_of_endsBare hw.bare) hword
        (infix_withAwaitsFrom hlacks)
    cases p with
    | code e => exact hcode
    | interpolation e => exact hcode
    | quoted e => exact infix_withAwaitsFrom hlacks
    | template e => exact infix_withAwaitsFrom hlacks
  rw [rewritten_pieces]
  obtain ⟨front, rest, hsplit⟩ := List.append_of_mem hp
  rw [hsplit, List.flatMap_append, List.flatMap_cons]
  exact hpiece.trans ((List.prefix_append _ _).isInfix.trans (List.suffix_append _ _).isInfix)

end Trellis.Code
