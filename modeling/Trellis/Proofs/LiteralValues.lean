import Trellis.Proofs.Numerals
import Trellis.Proofs.Trimming

/-!
# Values that are one literal

A value is static exactly when its trimmed text is one literal: a number, `true`, `false`, or a text in single or double
quotes in which no quote of that kind is left unprotected (`OneLiteral`).  The decision is made on tokens; a trimmed
text is one token exactly when its first token leaves no rest (`scan_eq_singleton_iff`), and the first token is quoted
exactly when the text is (`takeQuoted?_eq_some_iff`).
-/

namespace Trellis.Value

variable {c q : Char} {b r t u v : Text} {w : Token}

/-! ### Quoted texts -/

/-- The characters of a text that no backslash protects, read from left to right; there are none to speak of when the
text ends inside an escape. -/
def unprotected? : Text → Option Text
  | [] => some []
  | c :: t =>
    if c = '\\' then
      match t with
      | [] => none
      | _ :: t' => unprotected? t'
    else (unprotected? t).map (c :: ·)

/-- The text does not end inside an escape, and holds no unprotected `q`. -/
def Unbroken (q : Char) (u : Text) : Prop := ∃ m, unprotected? u = some m ∧ q ∉ m

theorem unbroken_nil (q : Char) : Unbroken q [] := ⟨[], rfl, List.not_mem_nil⟩

theorem unprotected?_escape (d : Char) (u : Text) : unprotected? ('\\' :: d :: u) = unprotected? u := by
  rw [unprotected?, if_pos rfl]

theorem unprotected?_cons (hc : c ≠ '\\') (u : Text) : unprotected? (c :: u) = (unprotected? u).map (c :: ·) := by
  rw [unprotected?.eq_def]
  exact if_neg hc

theorem unbroken_escape {d : Char} : Unbroken q ('\\' :: d :: u) ↔ Unbroken q u := by
  rw [Unbroken, unprotected?_escape, Unbroken]

theorem unbroken_cons (hc : c ≠ '\\') : Unbroken q (c :: u) ↔ c ≠ q ∧ Unbroken q u := by
  rw [Unbroken, unprotected?_cons hc]
  constructor
  · rintro ⟨m, hm, hmem⟩
    obtain ⟨m', hm', rfl⟩ := Option.map_eq_some_iff.mp hm
    obtain ⟨hne, hmem⟩ := List.ne_and_not_mem_of_not_mem_cons hmem
    exact ⟨hne.symm, m', hm', hmem⟩
  · rintro ⟨hne, m, hm, hmem⟩
    exact ⟨c :: m, by rw [hm, Option.map_some], List.not_mem_cons_of_ne_of_not_mem hne.symm hmem⟩

/-- **A quoted text ends at the first unprotected quote.** -/
theorem takeQuoted?_eq_some_iff (hq : q ≠ '\\') :
    takeQuoted? q t = some (b, r) ↔ ∃ u, b = u ++ [q] ∧ t = u ++ q :: r ∧ Unbroken q u := by
  constructor
  · intro h
    fun_induction takeQuoted? q t generalizing b r with
    | case1 => cases h
    | case2 t =>
      obtain ⟨rfl, rfl⟩ := Prod.mk.inj (Option.some.inj h)
      exact ⟨[], rfl, rfl, unbroken_nil q⟩
    | case3 => cases h
    | case4 d t hne ih =>
      -- a backslash and what it protects
      obtain ⟨⟨b', r'⟩, h', e⟩ := Option.map_eq_some_iff.mp h
      obtain ⟨rfl, rfl⟩ := Prod.mk.inj e
      obtain ⟨u, rfl, rfl, hu⟩ := ih h'
      exact ⟨'\\' :: d :: u, rfl, rfl, unbroken_escape.mpr hu⟩
    | case5 c t hne hback ih =>
      obtain ⟨⟨b', r'⟩, h', e⟩ := Option.map_eq_some_iff.mp h
      obtain ⟨rfl, rfl⟩ := Prod.mk.inj e
      obtain ⟨u, rfl, rfl, hu⟩ := ih h'
      exact ⟨c :: u, rfl, rfl, (unbroken_cons hback).mpr ⟨hne, hu⟩⟩
  · rintro ⟨u, rfl, rfl, hu⟩
    fun_induction unprotected? u with
    | case1 => rw [List.nil_append, List.nil_append, takeQuoted?.eq_def]; exact if_pos rfl
    | case2 =>
      -- a text that ends with a backslash is not unbroken
      obtain ⟨m, hm, -⟩ := hu
      cases hm
    | case3 d u ih =>
      have hread := ih (unbroken_escape.mp hu)
      simp only [List.cons_append, takeQuoted?, if_neg hq.symm, if_true, hread, Option.map_some]
    | case4 c u hback ih =>
      obtain ⟨hne, hu⟩ := (unbroken_cons hback).mp hu
      have hread := ih hu
      rw [List.cons_append, takeQuoted?.eq_def]
      simp only [if_neg hne, if_neg hback, hread, Option.map_some, List.cons_append]

theorem ne_backslash_of_quote (hq : isQuote q = true) : q ≠ '\\' := by
  rintro rfl
  cases hq

/-! ### Texts of one token -/

theorem scan_eq_nil_iff : scan t = [] ↔ Text.Blanks t := by
  fun_induction scan t with
  | case1 => exact ⟨fun _ => nofun, fun _ => rfl⟩
  | case2 c t hblank ih =>
    rw [ih]
    exact ⟨fun h => List.forall_mem_cons.mpr ⟨hblank, h⟩, fun h => (List.forall_mem_cons.mp h).2⟩
  | case3 c t hblank ih =>
    refine ⟨nofun, fun h => absurd ?_ hblank⟩
    exact h c List.mem_cons_self

/-- A trimmed text is one token exactly when its first token leaves no rest. -/
theorem scan_eq_singleton_iff (hfirst : Text.isBlank c = false)
    (hlast : ∀ d ∈ (c :: t).getLast?, Text.isBlank d = false) : scan (c :: t) = [w] ↔ takeToken c t = (w, []) := by
  rw [scan, if_neg (by simp [hfirst]), List.cons.injEq, scan_eq_nil_iff]
  constructor
  · rintro ⟨rfl, hrest⟩
    -- a blank rest would be the end of the text
    have hnil : (takeToken c t).2 = [] := by
      by_contra hne
      obtain ⟨x, d, hx⟩ := (List.eq_nil_or_concat' (takeToken c t).2).resolve_left hne
      have hend : (c :: t).getLast? = some d := by
        rw [← takeToken_append c t, hx, ← List.append_assoc, List.getLast?_concat]
      have hblank := hrest d (by rw [hx]; simp)
      rw [hlast d hend] at hblank
      cases hblank
    exact Prod.ext rfl hnil
  · intro h
    rw [h]
    exact ⟨rfl, List.forall_mem_nil _⟩

/-- What the first token of a text is, when it is the whole text. -/
theorem text_of_takeToken (h : takeToken c t = (w, [])) : w.text = c :: t := by
  have happend := takeToken_append c t
  rw [h, List.append_nil] at happend
  exact happend

/-! ### Single tokens -/

/-- The kind of a token that opens with the quote. -/
def quotedKind (q : Char) : TokenKind := if q = '`' then .template else .string

theorem quotedKind_eq_string (hq : isQuote q = true) : quotedKind q = .string ↔ q = '\'' ∨ q = '"' := by
  simp only [isQuote, Bool.or_eq_true, decide_eq_true_eq] at hq
  rcases hq with (rfl | rfl) | rfl <;> decide

/-- The ways to take a token off the text `c :: t`: the token and the rest. -/
inductive Takes (c : Char) (t : Text) : Token → Text → Prop where
  | unterminated (hq : isQuote c = true) (h : takeQuoted? c t = none) : Takes c t ⟨.unterminated, c :: t⟩ []
  | quoted {k : TokenKind} {u r : Text} (hq : isQuote c = true) (hk : k = quotedKind c) (ht : t = u ++ c :: r)
    (hu : Unbroken c u) : Takes c t ⟨k, c :: (u ++ [c])⟩ r
  | number {n r : Text} (hq : isQuote c = false) (h : Numeral.take? (c :: t) = some (n, r)) : Takes c t ⟨.number, n⟩ r
  | identifier {n r : Text} (hq : isQuote c = false) (hn : Numeral.take? (c :: t) = none)
    (h : Text.takeName? (c :: t) = some (n, r)) : Takes c t ⟨.identifier, n⟩ r
  | punct (hq : isQuote c = false) (hn : Numeral.take? (c :: t) = none) (h : Text.takeName? (c :: t) = none) :
    Takes c t ⟨.punct, [c]⟩ t

theorem takes_takeToken (c : Char) (t : Text) : Takes c t (takeToken c t).1 (takeToken c t).2 := by
  unfold takeToken
  by_cases hq : isQuote c = true
  · rw [if_pos hq]
    cases h : takeQuoted? c t with
    | none => exact .unterminated hq h
    | some p =>
      obtain ⟨u, hb, ht, hu⟩ := (takeQuoted?_eq_some_iff (ne_backslash_of_quote hq)).mp h
      simp only [hb]
      exact .quoted hq rfl ht hu
  · rw [if_neg hq]
    have hq : isQuote c = false := Bool.not_eq_true _ ▸ hq
    cases h : Numeral.take? (c :: t) with
    | some p => exact .number hq h
    | none =>
      cases hname : Text.takeName? (c :: t) with
      | some p => exact .identifier hq h hname
      | none => exact .punct hq h hname

theorem takeToken_quoted (hq : isQuote q = true) (hu : Unbroken q u) (r : Text) :
    takeToken q (u ++ q :: r) = (⟨quotedKind q, q :: (u ++ [q])⟩, r) := by
  have hquoted : takeQuoted? q (u ++ q :: r) = some (u ++ [q], r) :=
    (takeQuoted?_eq_some_iff (ne_backslash_of_quote hq)).mpr ⟨u, rfl, rfl, hu⟩
  rw [takeToken, if_pos hq, hquoted]
  rfl

theorem takeToken_string_iff :
    takeToken c t = (⟨.string, v⟩, []) ↔
      (c = '\'' ∨ c = '"') ∧ ∃ u, t = u ++ [c] ∧ v = c :: t ∧ Unbroken c u := by
  constructor
  · intro h
    have htakes := takes_takeToken c t
    rw [h] at htakes
    cases htakes with
    | @quoted _ u _ hq hk ht hu => exact ⟨(quotedKind_eq_string hq).mp hk.symm, u, ht, by rw [ht], hu⟩
  · rintro ⟨hc, u, rfl, rfl, hu⟩
    have hq : isQuote c = true := by rcases hc with rfl | rfl <;> rfl
    rw [takeToken_quoted hq hu, (quotedKind_eq_string hq).mpr hc]

theorem take?_of_takeToken (h : takeToken c t = (⟨.number, v⟩, [])) : Numeral.take? (c :: t) = some (c :: t, []) := by
  have htext : v = c :: t := text_of_takeToken h
  have htakes := takes_takeToken c t
  rw [h] at htakes
  cases htakes with
  | quoted hq hk ht hu =>
    unfold quotedKind at hk
    split at hk <;> cases hk
  | number hq hn => rwa [htext] at hn

/-! ### Literals -/

/-- The text is one literal, which stands for the value. -/
inductive OneLiteral : Text → Text → Prop
  | number {t : Text} : Numeral.IsNumber t → OneLiteral t t
  | true : OneLiteral "true" "true"
  | false : OneLiteral "false" "false"
  | quoted {q : Char} {u : Text} : q = '\'' ∨ q = '"' → Unbroken q u → OneLiteral (q :: (u ++ [q])) u

/-- Taking off the quotes of a literal leaves its value. -/
theorem unquote_of_oneLiteral (h : OneLiteral t v) : unquote t = v := by
  cases h with
  | number hnumber =>
    obtain ⟨c, r, rfl, hc⟩ := hnumber.head
    unfold unquote
    simp only [hc, Bool.false_and, Bool.false_eq_true, if_false]
    split <;> rfl
  | true => rfl
  | false => rfl
  | @quoted q u hq _ =>
    have hquote : isQuote q = true := by rcases hq with rfl | rfl <;> rfl
    simp only [unquote, List.getLast?_concat, hquote, decide_true, Bool.and_self, if_true, List.dropLast_concat]

/-- **A trimmed text passes as a literal exactly when it is one.** -/
theorem isLiteral_iff (hfirst : Text.isBlank c = false) (hlast : ∀ d ∈ (c :: t).getLast?, Text.isBlank d = false) :
    isLiteral (c :: t) = true ↔ ∃ v, OneLiteral (c :: t) v := by
  have hbreak : (c :: t).getLast? ≠ some '\n' := by
    intro hend
    exact absurd (hlast '\n' hend) (by decide)
  have hsingle : ∀ {w}, scan (c :: t) = [w] → takeToken c t = (w, []) := (scan_eq_singleton_iff hfirst hlast).mp
  unfold isLiteral
  rw [Bool.or_eq_true, Numeral.isNumeral_iff hbreak]
  constructor
  · rintro (hnumber | h)
    · exact ⟨_, .number hnumber⟩
    · split at h
      · -- one string token
        next v hscan =>
        obtain ⟨hc, u, rfl, -, hu⟩ := takeToken_string_iff.mp (hsingle hscan)
        exact ⟨u, .quoted hc hu⟩
      · next v hscan => exact ⟨_, .number (Numeral.isNumber_of_take? (take?_of_takeToken (hsingle hscan)))⟩
      · next v hscan =>
        -- one name, which has to be `true` or `false`
        have htext : v = c :: t := text_of_takeToken (hsingle hscan)
        rw [htext, Bool.or_eq_true, decide_eq_true_eq, decide_eq_true_eq] at h
        rcases h with h | h
        · rw [h]
          exact ⟨_, .true⟩
        · rw [h]
          exact ⟨_, .false⟩
      · cases h
  · rintro ⟨v, h⟩
    -- each form of a literal is one token, but for a number with a sign
    generalize hs : c :: t = s at h
    cases h with
    | number hnumber => exact .inl hnumber
    | true =>
      rw [show scan ("true" : Text) = [⟨.identifier, "true"⟩] by decide +kernel]
      exact .inr rfl
    | false =>
      rw [show scan ("false" : Text) = [⟨.identifier, "false"⟩] by decide +kernel]
      exact .inr rfl
    | quoted hq hu =>
      obtain ⟨rfl, rfl⟩ := List.cons.inj hs
      have htoken := takeToken_string_iff.mpr ⟨hq, v, rfl, rfl, hu⟩
      rw [(scan_eq_singleton_iff hfirst hlast).mpr htoken]
      exact .inr rfl

/-- **A value is static exactly when it is one literal**, and is then the value of the literal; else it is its trimmed
text as an expression.  Only a blank text is a flag. -/
theorem classify_literal (raw : Text) :
    (classify raw = .flag ↔ Text.trim raw = []) ∧
    (∀ v, classify raw = .static v ↔ OneLiteral (Text.trim raw) v) ∧
    ∀ e, classify raw = .dynamic e ↔
      e = Text.trim raw ∧ Text.trim raw ≠ [] ∧ ∀ v, ¬ OneLiteral (Text.trim raw) v := by
  have hfirst := Text.head?_trim (t := raw)
  have hlast := Text.isBlank_getLast_trim (t := raw)
  unfold classify
  generalize Text.trim raw = s at hfirst hlast
  cases s with
  | nil =>
    -- no literal is empty
    have hnone : ∀ v, ¬ OneLiteral [] v := by
      intro v h
      generalize hs : ([] : Text) = s at h
      cases h with
      | number hnumber =>
        obtain ⟨c, r, hcons, -⟩ := hnumber.head
        rw [← hs] at hcons
        cases hcons
      | true => cases hs
      | false => cases hs
      | quoted => cases hs
    simp [hnone]
  | cons c t =>
    have hliteral := isLiteral_iff (hfirst c rfl) hlast
    by_cases h : isLiteral (c :: t) = true
    · obtain ⟨v, hv⟩ := hliteral.mp h
      -- a text is one literal in at most one way
      have hvalue : ∀ v', OneLiteral (c :: t) v' ↔ unquote (c :: t) = v' := by
        intro v'
        refine ⟨unquote_of_oneLiteral, ?_⟩
        rintro rfl
        rw [unquote_of_oneLiteral hv]
        exact hv
      simp [h, hvalue]
    · have hnone : ∀ v, ¬ OneLiteral (c :: t) v := fun v hv => h (hliteral.mpr ⟨v, hv⟩)
      simp only [h, Bool.false_eq_true, if_false, hnone, reduceCtorEq, not_false_eq_true, Class.dynamic.injEq,
        implies_true, and_true, ne_eq, true_and]
      exact fun e => eq_comm

end Trellis.Value
