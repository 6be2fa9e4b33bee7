import Mathlib.Data.List.Forall2
import Trellis.Code.StateAccess

/-!
# Texts with pieces inserted

Rewriting a statement only inserts: `await` before calls and `.value` behind names.  `Inserted P before t u` says that
`u` is `t` with pieces inserted where `P` allows them.  A piece is harmless when it holds no quote, backslash or line
feed, and is not put between a backslash and a character that needs its protection.  Harmless pieces leave the strings
of a text where they are: `segments_flatten_of_padded` cuts the longer text as the shorter one was cut.
-/

namespace Trellis.Code

/-! ### Insertions -/

/-- `u` is `t` with pieces inserted.  `before` is the text before `t`, last character first, and `P before w rest` allows
`w` between `before` and `rest`. -/
inductive Inserted (P : Text → Text → Text → Prop) : Text → Text → Text → Prop
  | nil {before : Text} : Inserted P before [] []
  | keep {before t u : Text} (c : Char) : Inserted P (c :: before) t u → Inserted P before (c :: t) (c :: u)
  | insert {before t u w : Text} : P before w t → Inserted P before t u → Inserted P before t (w ++ u)

section Inserted

variable {P Q : Text → Text → Text → Prop} {before before' t t' u u' : Text}

theorem Inserted.refl (before t : Text) : Inserted P before t t := by
  induction t generalizing before with
  | nil => exact .nil
  | cons c t ih => exact .keep c (ih (c :: before))

/-- Other pieces may be allowed behind another text. -/
theorem Inserted.rebase (h : Inserted P before t u)
    (hP : ∀ x w rest, P (x ++ before) w rest → Q (x ++ before') w rest) : Inserted Q before' t u := by
  induction h generalizing before' with
  | nil => exact .nil
  | keep c _ ih =>
    refine .keep c (ih fun x w rest hp => ?_)
    have hq := hP (x ++ [c]) w rest
    rw [List.append_assoc, List.append_assoc] at hq
    exact hq hp
  | insert hp _ ih => exact .insert (hP [] _ _ hp) (ih hP)

theorem Inserted.mono (h : Inserted P before t u) (hP : ∀ x w rest, P x w rest → Q x w rest) : Inserted Q before t u :=
  h.rebase fun _ => hP _

theorem Inserted.append (h : Inserted P before t u) (h' : Inserted P (t.reverse ++ before) t' u')
    (hP : ∀ x w rest, P x w rest → P x w (rest ++ t')) : Inserted P before (t ++ t') (u ++ u') := by
  induction h with
  | nil => exact h'
  | keep c _ ih =>
    rw [List.reverse_cons, List.append_assoc] at h'
    exact .keep c (ih h')
  | insert hp _ ih =>
    rw [List.append_assoc]
    exact .insert (hP _ _ _ hp) (ih h')

theorem Inserted.length_le (h : Inserted P before t u) : t.length ≤ u.length := by
  induction h with
  | nil => exact Nat.le_refl _
  | keep c _ ih => exact Nat.succ_le_succ ih
  | insert _ _ ih =>
    rw [List.length_append]
    omega

theorem Inserted.eq_of_length_le (h : Inserted P before t u) (hle : u.length ≤ t.length) : u = t := by
  induction h with
  | nil => rfl
  | keep c _ ih => rw [ih (Nat.le_of_succ_le_succ hle)]
  | @insert before t u w _ h ih =>
    have hge := h.length_le
    rw [List.length_append] at hle
    obtain rfl : w = [] := List.eq_nil_of_length_eq_zero (by omega)
    exact ih (by omega)

/-- Before the first character that is kept stand inserted pieces only. -/
theorem Inserted.exists_of_cons {p : Char → Prop} {c : Char} (hp : ∀ x w rest, P x w rest → ∀ a ∈ w, p a)
    (h : Inserted P before (c :: t) u) :
    ∃ w u', u = w ++ c :: u' ∧ (∀ a ∈ w, p a) ∧ Inserted P (c :: before) t u' := by
  generalize hs : c :: t = s at h
  induction h with
  | nil => cases hs
  | keep d h ih =>
    obtain ⟨rfl, rfl⟩ := List.cons.inj hs
    exact ⟨[], _, rfl, List.forall_mem_nil _, h⟩
  | @insert before _ _ w hw _ ih =>
    obtain ⟨w', u', rfl, hw', h'⟩ := ih hs
    exact ⟨w ++ w', u', by rw [List.append_assoc], List.forall_mem_append.mpr ⟨hp _ _ _ hw, hw'⟩, h'⟩

theorem Inserted.forall_mem {p : Char → Prop} (hp : ∀ x w rest, P x w rest → ∀ a ∈ w, p a)
    (h : Inserted P before t u) (ht : ∀ a ∈ t, p a) : ∀ a ∈ u, p a := by
  induction h with
  | nil => exact ht
  | keep c _ ih =>
    obtain ⟨hc, ht⟩ := List.forall_mem_cons.mp ht
    exact List.forall_mem_cons.mpr ⟨hc, ih ht⟩
  | insert hw _ ih => exact List.forall_mem_append.mpr ⟨hp _ _ _ hw, ih ht⟩

end Inserted

/-! ### Where strings end -/

/-- A character that neither opens nor closes a string, nor matters behind a backslash. -/
def isInert (c : Char) : Bool := !isQuote c && c ≠ '\\' && c ≠ '\n'

/-- Inserting `w` moves the end of no string. -/
structure Harmless (before w rest : Text) : Prop where
  inert : ∀ c ∈ w, isInert c = true
  place : before.head? ≠ some '\\' ∨ ∃ c ∈ rest.head?, isInert c = true

/-- Two readings of a string end at the same place, up to what was inserted behind it. -/
inductive SameEnd : Option (Text × Text) → Option (Text × Text) → Prop
  | none : SameEnd none none
  | some {before b b' r r' : Text} : Inserted Harmless before r r' → SameEnd (some (b, r)) (some (b', r'))

section Strings

variable {q c : Char} {before b r t u w : Text} {x y : Option (Text × Text)}

theorem isInert_iff : isInert c = true ↔ isQuote c = false ∧ c ≠ '\\' ∧ c ≠ '\n' := by
  simp [isInert, and_assoc]

theorem SameEnd.map (h : SameEnd x y) (f g : Text → Text) :
    SameEnd (x.map fun p => (f p.1, p.2)) (y.map fun p => (g p.1, p.2)) := by
  cases h with
  | none => exact .none
  | some h => exact .some h

/-- What follows a backslash in a string that opened with `q`. -/
def takeProtected? (q : Char) : Text → Option (Text × Text)
  | [] => none
  | d :: t => if d = '\n' then none else (takeString? q t).map fun p => (d :: p.1, p.2)

theorem takeString?_self (q : Char) (t : Text) : takeString? q (q :: t) = some ([q], t) := by
  rw [takeString?.eq_def]
  exact if_pos rfl

theorem takeString?_other (hne : c ≠ q) (hc : c ≠ '\\') (t : Text) :
    takeString? q (c :: t) = (takeString? q t).map fun p => (c :: p.1, p.2) := by
  rw [takeString?.eq_def]
  simp only [if_neg hne, if_neg hc]

theorem takeString?_backslash (hq : isQuote q = true) (t : Text) :
    takeString? q ('\\' :: t) = (takeProtected? q t).map fun p => ('\\' :: p.1, p.2) := by
  have hne : ¬ '\\' = q := by
    rintro rfl
    cases hq
  cases t with
  | nil => rw [takeString?, if_neg hne, if_pos rfl, takeProtected?, Option.map_none]
  | cons d t =>
    rw [takeString?, if_neg hne, if_pos rfl, takeProtected?]
    by_cases hd : d = '\n'
    · simp only [if_pos hd, Option.map_none]
    · simp only [if_neg hd, Option.map_map]
      rfl

theorem ne_of_isInert (hq : isQuote q = true) (hc : isInert c = true) : c ≠ q := by
  rintro rfl
  rw [(isInert_iff.mp hc).1] at hq
  cases hq

theorem takeString?_inert (hq : isQuote q = true) (hc : isInert c = true) (t : Text) :
    takeString? q (c :: t) = (takeString? q t).map fun p => (c :: p.1, p.2) :=
  takeString?_other (ne_of_isInert hq hc) (isInert_iff.mp hc).2.1 t

theorem takeString?_inert_append (hq : isQuote q = true) (hw : ∀ c ∈ w, isInert c = true) (t : Text) :
    takeString? q (w ++ t) = (takeString? q t).map fun p => (w ++ p.1, p.2) := by
  induction w with
  | nil => simp
  | cons c w ih =>
    obtain ⟨hc, hw⟩ := List.forall_mem_cons.mp hw
    rw [List.cons_append, takeString?_inert hq hc, ih hw, Option.map_map]
    rfl

theorem takeProtected?_inert (hq : isQuote q = true) (hc : isInert c = true) (t : Text) :
    takeProtected? q (c :: t) = takeString? q (c :: t) := by
  rw [takeProtected?, if_neg (isInert_iff.mp hc).2.2, takeString?_inert hq hc]

/-- A string ends where it ended before the insertion.  The second part is about a place behind a backslash: a piece
there takes over its protection, and the next character must not need it. -/
theorem takeString?_inserted (hq : isQuote q = true) (h : Inserted Harmless before t u) :
    SameEnd (takeString? q t) (takeString? q u) ∧
      (before.head? = some '\\' → SameEnd (takeProtected? q t) (takeProtected? q u)) := by
  induction h with
  | nil => exact ⟨.none, fun _ => .none⟩
  | @keep before t u c h ih =>
    obtain ⟨hnormal, hprotected⟩ := ih
    constructor
    · -- the quote ends the string, a backslash protects what follows, anything else is passed over
      by_cases hend : c = q
      · subst hend
        rw [takeString?_self, takeString?_self]
        exact .some h
      · by_cases hback : c = '\\'
        · subst hback
          rw [takeString?_backslash hq, takeString?_backslash hq]
          exact (hprotected rfl).map _ _
        · rw [takeString?_other hend hback, takeString?_other hend hback]
          exact hnormal.map _ _
    · -- behind a backslash only a line break ends the string
      intro _
      unfold takeProtected?
      by_cases hbreak : c = '\n'
      · simp only [if_pos hbreak]
        exact .none
      · simp only [if_neg hbreak]
        exact hnormal.map _ _
  | @insert before t u w hw h ih =>
    obtain ⟨hnormal, hprotected⟩ := ih
    have hmapped : SameEnd (takeString? q t) (takeString? q (w ++ u)) := by
      rw [takeString?_inert_append hq hw.inert]
      have := hnormal.map id (w ++ ·)
      rwa [show (fun p : Text × Text => (id p.1, p.2)) = id from rfl, Option.map_id] at this
    refine ⟨hmapped, fun hback => ?_⟩
    cases w with
    | nil => exact hprotected hback
    | cons a w =>
      -- the piece takes the protection, so the character behind it must be harmless without
      obtain ⟨d, hd, hinert⟩ := hw.place.resolve_left (not_not_intro hback)
      obtain ⟨t, rfl⟩ := List.head?_eq_some_iff.mp hd
      rw [List.cons_append, takeProtected?_inert hq hinert,
        takeProtected?_inert hq (hw.inert a List.mem_cons_self)]
      exact hmapped

theorem takeString?_extend (h : takeString? q t = some (b, r)) (r' : Text) :
    takeString? q (b ++ r') = some (b, r') := by
  fun_induction takeString? q t generalizing b r with
  | case1 => cases h
  | case2 t =>
    obtain ⟨rfl, rfl⟩ := Prod.mk.inj (Option.some.inj h)
    exact takeString?_self q r'
  | case3 => cases h
  | case4 => cases h
  | case5 d t hne hd ih =>
    obtain ⟨⟨b', r''⟩, h', e⟩ := Option.map_eq_some_iff.mp h
    obtain ⟨rfl, rfl⟩ := Prod.mk.inj e
    rw [List.cons_append, List.cons_append, takeString?, if_neg hne, if_pos rfl]
    simp only [if_neg hd, ih h', Option.map_some]
  | case6 c t hne hback ih =>
    obtain ⟨⟨b', r''⟩, h', e⟩ := Option.map_eq_some_iff.mp h
    obtain ⟨rfl, rfl⟩ := Prod.mk.inj e
    rw [List.cons_append, takeString?_other hne hback, ih h', Option.map_some]

/-- A string that still ends in its quote after the insertion is a whole string again. -/
theorem takeString?_of_concat (hq : isQuote q = true) (h : Inserted Harmless before t (u ++ [q]))
    (ht : takeString? q t = some (t, [])) : takeString? q (u ++ [q]) = some (u ++ [q], []) := by
  have hsame := (takeString?_inserted hq h).1
  rw [ht] at hsame
  generalize hx : takeString? q (u ++ [q]) = x at hsame
  cases hsame with
  | @some _ _ b' _ r' hr =>
    have hinert := hr.forall_mem (fun _ _ _ hw => hw.inert) (List.forall_mem_nil _)
    have hsplit := takeString?_append hx
    rcases List.eq_nil_or_concat r' with rfl | ⟨r'', d, rfl⟩
    · rw [List.append_nil] at hsplit
      rw [hsplit]
    · rw [List.concat_eq_append, ← List.append_assoc] at hsplit
      obtain rfl := List.singleton_injective (List.append_inj_right' hsplit rfl)
      have hd := hinert q (by simp)
      exact absurd rfl (ne_of_isInert hq hd)

end Strings

/-! ### Cutting a text at its strings -/

/-- The text that was cut. -/
def Segments.flatten (s : Segments) : Text := s.code ++ s.strings.flatMap fun x => x.1 ++ x.2

/-- The pieces rewritten, each on its own. -/
def Segments.map (f : Text → Text) (s : Segments) : Segments := ⟨f s.code, s.strings.map fun x => (f x.1, f x.2)⟩

theorem flatten_segments (t : Text) : (segments t).flatten = t := by
  fun_induction segments t with
  | case1 => rfl
  | case2 c r hq b rest hb hlength s ih =>
    rw [takeString?_append hb]
    show c :: b ++ s.code ++ s.strings.flatMap _ = c :: (b ++ rest)
    rw [List.append_assoc, List.cons_append]
    exact congrArg (fun r => c :: (b ++ r)) ih
  | case3 c r hq hb s ih =>
    rw [Segments.flatten, List.cons_append]
    exact congrArg (c :: ·) ih
  | case4 c r hq s ih =>
    rw [Segments.flatten, List.cons_append]
    exact congrArg (c :: ·) ih

/-- A whole string, and the same string with harmless pieces inserted behind its opening quote. -/
inductive StringPadded : Text → Text → Prop
  | intro {q : Char} {b b' : Text} : isQuote q = true → takeString? q b = some (b, []) →
      takeString? q b' = some (b', []) → Inserted Harmless [q] b b' → StringPadded (q :: b) (q :: b')

/-- A text that was cut, and the same pieces with harmless insertions. -/
structure Segments.Padded (s s' : Segments) : Prop where
  code : Inserted Harmless [] s.code s'.code
  strings : List.Forall₂ (fun x x' => StringPadded x.1 x'.1 ∧ Inserted Harmless [] x.2 x'.2) s.strings s'.strings

section Segments

variable {before before' t u w : Text} {s s' : Segments}

theorem Harmless.extend {before w rest : Text} (h : Harmless before w rest) (t : Text) :
    Harmless before w (rest ++ t) := by
  refine ⟨h.inert, h.place.imp_right ?_⟩
  rintro ⟨c, hc, hinert⟩
  obtain ⟨rest, rfl⟩ := List.head?_eq_some_iff.mp hc
  exact ⟨c, rfl, hinert⟩

theorem Inserted.append_harmless {t' u' : Text} (h : Inserted Harmless before t u)
    (h' : Inserted Harmless (t.reverse ++ before) t' u') : Inserted Harmless before (t ++ t') (u ++ u') :=
  h.append h' fun _ _ _ hw => hw.extend t'

/-- What is harmless behind one text is so behind another that ends alike, or ends in no backslash. -/
theorem Inserted.behind (h : Inserted Harmless before t u)
    (hhead : before.head? = before'.head? ∨ before'.head? ≠ some '\\') : Inserted Harmless before' t u := by
  refine h.rebase fun x w rest hw => ⟨hw.inert, ?_⟩
  cases x with
  | cons a x => exact hw.place
  | nil =>
    rcases hhead with heq | hne
    · exact hw.place.imp_left fun hb => heq ▸ hb
    · exact .inl hne

theorem head?_reverse_of_takeString? {q : Char} {b : Text} (h : takeString? q t = some (b, u)) (before : Text) :
    (b.reverse ++ before).head? = some q := by
  fun_induction takeString? q t generalizing b u before with
  | case1 => cases h
  | case2 t =>
    obtain ⟨rfl, rfl⟩ := Prod.mk.inj (Option.some.inj h)
    rfl
  | case3 => cases h
  | case4 => cases h
  | case5 d t hne hd ih =>
    obtain ⟨⟨b', r⟩, h', e⟩ := Option.map_eq_some_iff.mp h
    obtain ⟨rfl, rfl⟩ := Prod.mk.inj e
    rw [List.reverse_cons, List.reverse_cons, List.append_assoc, List.append_assoc]
    exact ih h' _
  | case6 c t hne hback ih =>
    obtain ⟨⟨b', r⟩, h', e⟩ := Option.map_eq_some_iff.mp h
    obtain ⟨rfl, rfl⟩ := Prod.mk.inj e
    rw [List.reverse_cons, List.append_assoc]
    exact ih h' _

theorem ne_backslash_of_isQuote {q : Char} (hq : isQuote q = true) : some q ≠ some '\\' := by
  intro h
  rw [Option.some.inj h] at hq
  cases hq

/-- The padded pieces make up the text that was cut, with harmless insertions. -/
theorem Segments.Padded.flatten (h : s.Padded s') (hb : before.head? ≠ some '\\') :
    Inserted Harmless before s.flatten s'.flatten := by
  have hstrings := h.strings
  refine (h.code.behind (.inr hb)).append_harmless ?_
  generalize s.code.reverse ++ before = last
  generalize s.strings = strings, s'.strings = strings' at hstrings ⊢
  induction hstrings generalizing last with
  | nil => exact .nil
  | @cons x x' strings strings' hx _ ih =>
    obtain ⟨hstring, hc⟩ := hx
    rw [List.flatMap_cons, List.flatMap_cons]
    refine Inserted.append_harmless ?_ (ih _)
    generalize x.1 = y, x'.1 = y' at hstring
    cases hstring with
    | @intro q b b' hq hb hb' hins =>
      have hlast := head?_reverse_of_takeString? hb (q :: last)
      have hins : Inserted Harmless (q :: last) b b' := hins.behind (.inl rfl)
      refine .keep q (hins.append_harmless (hc.behind (.inr ?_)))
      rw [hlast]
      exact ne_backslash_of_isQuote hq

theorem segments_cons_of_not_isQuote {c : Char} (hc : isQuote c = false) (t : Text) :
    segments (c :: t) = ⟨c :: (segments t).code, (segments t).strings⟩ := by
  rw [segments, if_neg (by simp [hc])]

theorem segments_cons_of_none {c : Char} (hc : takeString? c t = none) :
    segments (c :: t) = ⟨c :: (segments t).code, (segments t).strings⟩ := by
  rw [segments]
  by_cases hq : isQuote c = true
  · rw [if_pos hq]
    split
    · next h => rw [hc] at h; cases h
    · rfl
  · rw [if_neg hq]

theorem segments_string {q : Char} {b : Text} (hq : isQuote q = true) (hb : takeString? q b = some (b, [])) (t : Text) :
    segments (q :: b ++ t) = ⟨[], (q :: b, (segments t).code) :: (segments t).strings⟩ := by
  have hend := takeString?_extend hb t
  rw [List.cons_append, segments, if_pos hq]
  split
  · next b' rest h =>
    rw [hend] at h
    obtain ⟨rfl, rfl⟩ := Prod.mk.inj (Option.some.inj h)
    rfl
  · next h => rw [hend] at h; cases h

theorem segments_inert_append (hw : ∀ c ∈ w, isInert c = true) (t : Text) :
    segments (w ++ t) = ⟨w ++ (segments t).code, (segments t).strings⟩ := by
  induction w with
  | nil => rfl
  | cons c w ih =>
    obtain ⟨hc, hw⟩ := List.forall_mem_cons.mp hw
    rw [List.cons_append, segments_cons_of_not_isQuote (isInert_iff.mp hc).1, ih hw]
    rfl

/-- **Harmless insertions keep the cut.**  Pieces of a text with harmless insertions make up a text that is cut into just
these pieces. -/
theorem segments_flatten_of_padded (t : Text) (h : (segments t).Padded s') : segments s'.flatten = s' := by
  obtain ⟨code', strings'⟩ := s'
  fun_induction segments t generalizing code' strings' with
  | case1 =>
    have hinert := h.code.forall_mem (fun _ _ _ hw => hw.inert) (List.forall_mem_nil _)
    cases h.strings
    have hcut := segments_inert_append hinert []
    rw [segments] at hcut
    simpa only [Segments.flatten, List.flatMap_nil, List.append_nil] using hcut
  | case2 c r hq b rest hb hlength s ih =>
    -- a string: the padded one ends at its own quote again
    have hinert := h.code.forall_mem (fun _ _ _ hw => hw.inert) (List.forall_mem_nil _)
    cases h.strings with
    | @cons x x' strings strings' hx hrest =>
      obtain ⟨x', c'⟩ := x'
      obtain ⟨hstring, hcode⟩ := hx
      simp only at hstring hcode
      have hcut := ih c' strings' ⟨hcode, hrest⟩
      cases hstring with
      | @intro q b b' hq hb hb' hins =>
        have hflat : (Segments.mk code' ((c :: b', c') :: strings')).flatten =
            code' ++ (c :: b' ++ (Segments.mk c' strings').flatten) := by
          simp [Segments.flatten]
        rw [hflat, segments_inert_append hinert, segments_string hq hb', hcut, List.append_nil]
  | case3 c r hq hb s ih =>
    obtain ⟨w, code, rfl, hinert, hcode⟩ := h.code.exists_of_cons fun _ _ _ hw => hw.inert
    have hpad : (segments r).Padded ⟨code, strings'⟩ := ⟨hcode.behind (.inr (by simp)), h.strings⟩
    have hcut := ih code strings' hpad
    -- a quote that opens no string opens none in the padded text
    have hnone : takeString? c (Segments.mk code strings').flatten = none := by
      have hins : Inserted Harmless [c] _ _ := hpad.flatten (ne_backslash_of_isQuote hq)
      have hsame := (takeString?_inserted hq hins).1
      rw [flatten_segments, hb] at hsame
      generalize takeString? c (Segments.mk code strings').flatten = x at hsame
      cases hsame
      rfl
    have hflat : (Segments.mk (w ++ c :: code) strings').flatten = w ++ c :: (Segments.mk code strings').flatten := by
      simp [Segments.flatten]
    rw [hflat, segments_inert_append hinert, segments_cons_of_none hnone, hcut]
  | case4 c r hq s ih =>
    obtain ⟨w, code, rfl, hinert, hcode⟩ := h.code.exists_of_cons fun _ _ _ hw => hw.inert
    have hcut := ih code strings' ⟨hcode.behind (.inr (by simp)), h.strings⟩
    have hflat : (Segments.mk (w ++ c :: code) strings').flatten = w ++ c :: (Segments.mk code strings').flatten := by
      simp [Segments.flatten]
    rw [hflat, segments_inert_append hinert, segments_cons_of_not_isQuote (by simpa using hq), hcut]

end Segments

end Trellis.Code
