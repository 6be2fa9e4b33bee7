import Trellis.Proofs.QuotedTokens

/-!
# The number grammar

A number is an optional sign, a mantissa and an optional exponent (`IsNumber`).  The readers take parts off the start of
a text, each as long as it can be; on a number they take it whole, and what they take is a part of a number
(`isNumeral_iff`, `isNumber_of_take?`).
-/

namespace Trellis

namespace Numeral

/-- Decimal digits, at least one. -/
structure Digits (ds : Text) : Prop where
  ne_nil : ds ≠ []
  decimal : ∀ c ∈ ds, Text.isDecimal c = true

def Sign (s : Text) : Prop := s = [] ∨ s = ['+'] ∨ s = ['-']

/-- Digits, digits with a point behind or among them, or a point with digits behind it. -/
inductive Mantissa : Text → Prop
  | whole {ds : Text} : Digits ds → Mantissa ds
  | pointed {ds fs : Text} : Digits ds → (∀ c ∈ fs, Text.isDecimal c = true) → Mantissa (ds ++ '.' :: fs)
  | fraction {fs : Text} : Digits fs → Mantissa ('.' :: fs)

/-- Nothing, or a letter `e`, an optional sign and digits. -/
inductive Exponent : Text → Prop
  | none : Exponent []
  | some {e : Char} {s ds : Text} : e = 'e' ∨ e = 'E' → Sign s → Digits ds → Exponent (e :: (s ++ ds))

/-- The text is a number: an optional sign, a mantissa and an optional exponent. -/
def IsNumber (t : Text) : Prop := ∃ s m x, Sign s ∧ Mantissa m ∧ Exponent x ∧ t = s ++ (m ++ x)

variable {c : Char} {m r t u x : Text}

/-! ### Characters -/

theorem Digits.head (h : Digits t) : ∃ c r, t = c :: r ∧ Text.isDecimal c = true := by
  obtain ⟨c, r, rfl⟩ := List.exists_cons_of_ne_nil h.ne_nil
  exact ⟨c, r, rfl, h.decimal c List.mem_cons_self⟩

theorem digits_takeWhile (h : t.takeWhile Text.isDecimal ≠ []) : Digits (t.takeWhile Text.isDecimal) :=
  ⟨h, fun _ hc => List.mem_takeWhile_imp hc⟩

theorem ne_of_isDecimal {d : Char} (hc : Text.isDecimal c = true) (hd : Text.isDecimal d = false) : c ≠ d := by
  rintro rfl
  rw [hc] at hd
  cases hd

/-- A mantissa starts with a digit or a point. -/
theorem Mantissa.head (h : Mantissa m) : ∃ c r, m = c :: r ∧ (Text.isDecimal c = true ∨ c = '.') := by
  cases h with
  | whole hds =>
    obtain ⟨c, r, rfl, hc⟩ := hds.head
    exact ⟨c, r, rfl, .inl hc⟩
  | pointed hds hfs =>
    obtain ⟨c, r, rfl, hc⟩ := hds.head
    exact ⟨c, _, rfl, .inl hc⟩
  | fraction hfs => exact ⟨'.', _, rfl, .inr rfl⟩

/-- An exponent continues no mantissa. -/
theorem Exponent.head (h : Exponent x) : ∀ c ∈ x.head?, Text.isDecimal c = false ∧ c ≠ '.' := by
  cases h with
  | none => exact nofun
  | some he hs hds =>
    rintro c ⟨⟩
    rcases he with rfl | rfl <;> decide

/-- A number starts with no quote. -/
theorem IsNumber.head (h : IsNumber t) : ∃ c r, t = c :: r ∧ isQuote c = false := by
  obtain ⟨s, m, x, hs, hm, -, rfl⟩ := h
  rcases hs with rfl | rfl | rfl
  · obtain ⟨c, r, rfl, hc⟩ := hm.head
    refine ⟨c, r ++ x, rfl, ?_⟩
    rcases hc with hc | rfl
    · have hdouble : c ≠ '"' := ne_of_isDecimal hc (by decide)
      have hsingle : c ≠ '\'' := ne_of_isDecimal hc (by decide)
      have htick : c ≠ '`' := ne_of_isDecimal hc (by decide)
      simp [isQuote, hdouble, hsingle, htick]
    · decide
  · exact ⟨'+', m ++ x, rfl, by decide⟩
  · exact ⟨'-', m ++ x, rfl, by decide⟩

/-! ### Signs -/

/-- The text starts with a sign. -/
def isSigned (t : Text) : Bool := t.head? = some '+' || t.head? = some '-'

/-- The sign at the start of a text, or nothing. -/
def signOf (t : Text) : Text := if isSigned t then t.take 1 else []

def unsigned (t : Text) : Text := if isSigned t then t.tail else t

theorem signOf_append_unsigned (t : Text) : signOf t ++ unsigned t = t := by
  unfold signOf unsigned
  split
  · cases t <;> rfl
  · rfl

theorem sign_signOf (t : Text) : Sign (signOf t) := by
  unfold signOf
  by_cases hsigned : isSigned t = true
  · rw [if_pos hsigned]
    rcases Bool.or_eq_true_iff.mp hsigned with hs | hs
    · obtain ⟨r, rfl⟩ := List.head?_eq_some_iff.mp (of_decide_eq_true hs)
      exact .inr (.inl rfl)
    · obtain ⟨r, rfl⟩ := List.head?_eq_some_iff.mp (of_decide_eq_true hs)
      exact .inr (.inr rfl)
  · rw [if_neg hsigned]
    exact .inl rfl

/-- A sign is taken off whole where no other sign follows. -/
theorem unsigned_append {s : Text} (hs : Sign s) (ht : isSigned t = false) :
    signOf (s ++ t) = s ∧ unsigned (s ++ t) = t := by
  rcases hs with rfl | rfl | rfl
  · exact ⟨if_neg (by simp [ht]), if_neg (by simp [ht])⟩
  · exact ⟨rfl, rfl⟩
  · exact ⟨rfl, rfl⟩

theorem not_isSigned (hc : Text.isDecimal c = true ∨ c = '.') (r : Text) : isSigned (c :: r) = false := by
  have hne : c ≠ '+' ∧ c ≠ '-' := by
    rcases hc with hc | rfl
    · exact ⟨ne_of_isDecimal hc (by decide), ne_of_isDecimal hc (by decide)⟩
    · decide
  simp [isSigned, hne]

/-! ### Mantissas -/

theorem takeMantissa?_of_point (h : t.dropWhile Text.isDecimal = '.' :: r) :
    takeMantissa? t =
      if (t.takeWhile Text.isDecimal).isEmpty && (r.takeWhile Text.isDecimal).isEmpty then none
      else some (t.takeWhile Text.isDecimal ++ '.' :: r.takeWhile Text.isDecimal, r.dropWhile Text.isDecimal) := by
  simp only [takeMantissa?, h]

theorem takeMantissa?_of_ne (h : (t.dropWhile Text.isDecimal).head? ≠ some '.') :
    takeMantissa? t =
      if (t.takeWhile Text.isDecimal).isEmpty then none
      else some (t.takeWhile Text.isDecimal, t.dropWhile Text.isDecimal) := by
  simp only [takeMantissa?]
  split
  · next hpoint =>
    rw [hpoint] at h
    exact absurd rfl h
  · rfl

theorem mantissa_of_takeMantissa? (h : takeMantissa? t = some (m, r)) : Mantissa m := by
  by_cases hpoint : (t.dropWhile Text.isDecimal).head? = some '.'
  · obtain ⟨r', hr'⟩ := List.head?_eq_some_iff.mp hpoint
    rw [takeMantissa?_of_point hr'] at h
    split at h
    · cases h
    · next hsome =>
      obtain ⟨rfl, -⟩ := Prod.mk.inj (Option.some.inj h)
      by_cases hwhole : t.takeWhile Text.isDecimal = []
      · rw [hwhole, List.nil_append]
        refine .fraction (digits_takeWhile fun hfrac => hsome ?_)
        rw [hwhole, hfrac]
        rfl
      · exact .pointed (digits_takeWhile hwhole) fun _ hc => List.mem_takeWhile_imp hc
  · rw [takeMantissa?_of_ne hpoint] at h
    split at h
    · cases h
    · next hsome =>
      obtain ⟨rfl, -⟩ := Prod.mk.inj (Option.some.inj h)
      exact .whole (digits_takeWhile (by simpa using hsome))

/-- A mantissa is taken whole where neither a digit nor a point follows. -/
theorem takeMantissa?_append_of_mantissa (hm : Mantissa m) (hr : ∀ c ∈ r.head?, Text.isDecimal c = false ∧ c ≠ '.') :
    takeMantissa? (m ++ r) = some (m, r) := by
  have hstop : ∀ c ∈ r.head?, Text.isDecimal c = false := fun c hc => (hr c hc).1
  have hpoint : ∀ s : Text, ∀ c ∈ ('.' :: s).head?, Text.isDecimal c = false := by
    rintro s c ⟨⟩
    decide
  cases hm with
  | whole hds =>
    -- digits alone
    obtain ⟨htake, hdrop⟩ := Text.span_exact hds.decimal hstop
    have hne : r.head? ≠ some '.' := fun hdot => (hr '.' hdot).2 rfl
    rw [takeMantissa?_of_ne (by rwa [hdrop]), htake, hdrop, if_neg (by simpa using hds.ne_nil)]
  | @pointed ds fs hds hfs =>
    obtain ⟨htake, hdrop⟩ := Text.span_exact hds.decimal (hpoint (fs ++ r))
    obtain ⟨hfrac, hrest⟩ := Text.span_exact hfs hstop
    rw [List.append_assoc, List.cons_append, takeMantissa?_of_point hdrop, htake, hfrac, hrest,
      if_neg (by simp [hds.ne_nil])]
  | @fraction fs hfs =>
    -- a point with digits behind it only
    have htake : ('.' :: (fs ++ r)).takeWhile Text.isDecimal = [] := List.takeWhile_cons_of_neg (by decide)
    have hdrop : ('.' :: (fs ++ r)).dropWhile Text.isDecimal = '.' :: (fs ++ r) :=
      List.dropWhile_cons_of_neg (by decide)
    obtain ⟨hfrac, hrest⟩ := Text.span_exact hfs.decimal hstop
    rw [List.cons_append, takeMantissa?_of_point hdrop, htake, hfrac, hrest, if_neg (by simp [hfs.ne_nil]),
      List.nil_append]

/-! ### Exponents -/

theorem takeExponent_cons (c : Char) (t : Text) :
    takeExponent (c :: t) =
      if (c = 'e' || c = 'E') && !((unsigned t).takeWhile Text.isDecimal).isEmpty then
        (c :: (signOf t ++ (unsigned t).takeWhile Text.isDecimal), (unsigned t).dropWhile Text.isDecimal)
      else ([], c :: t) := by
  by_cases hletter : (decide (c = 'e') || decide (c = 'E')) = true
  · rw [hletter, Bool.true_and]
    cases t with
    | nil =>
      simp only [takeExponent, hletter]
      rfl
    | cons s r =>
      by_cases hs : (decide (s = '+') || decide (s = '-')) = true
      · -- the sign is kept before the digits
        have hsigned : isSigned (s :: r) = true := by simpa [isSigned] using hs
        simp only [takeExponent, hletter, signOf, unsigned, hsigned, hs, if_true, List.length_singleton, List.drop_one,
          List.tail_cons]
        cases r.takeWhile Text.isDecimal <;> rfl
      · have hsigned : isSigned (s :: r) = false := by simpa [isSigned] using hs
        simp only [takeExponent, hletter, signOf, unsigned, hsigned, hs, if_true, Bool.false_eq_true, if_false,
          List.length_nil, List.drop_zero]
        cases (s :: r).takeWhile Text.isDecimal <;> rfl
  · simp only [takeExponent, hletter, Bool.false_and, Bool.false_eq_true, if_false]

theorem exponent_takeExponent (t : Text) : Exponent (takeExponent t).1 := by
  cases t with
  | nil => exact .none
  | cons c t =>
    rw [takeExponent_cons]
    split
    · next h =>
      obtain ⟨hletter, hdigits⟩ := Bool.and_eq_true_iff.mp h
      exact .some (by simpa using hletter) (sign_signOf t) (digits_takeWhile (by simpa using hdigits))
    · exact .none

/-- An exponent is taken whole. -/
theorem takeExponent_of_exponent (h : Exponent x) : takeExponent x = (x, []) := by
  cases h with
  | none => rfl
  | @some e s ds he hs hds =>
    obtain ⟨d, r, rfl, hd⟩ := hds.head
    obtain ⟨hsign, hrest⟩ := unsigned_append hs (not_isSigned (.inl hd) r)
    obtain ⟨htake, hdrop⟩ := Text.span_exact (y := []) hds.decimal nofun
    rw [List.append_nil] at htake hdrop
    rw [takeExponent_cons, hsign, hrest, htake, hdrop, if_pos (by simpa using he)]

/-! ### Whole numbers -/

theorem isNumeral_eq (t : Text) :
    isNumeral t = (takeMantissa? (unsigned t)).any fun p =>
      (takeExponent p.2).2 = [] || (takeExponent p.2).2 = ['\n'] := by
  unfold isNumeral unsigned isSigned
  cases t with
  | nil => rfl
  | cons c t =>
    simp only [List.head?_cons, Option.some.injEq, List.tail_cons]
    cases takeMantissa? (if (decide (c = '+') || decide (c = '-')) = true then t else c :: t) <;> rfl

/-- **A numeral is a number**, for a text that does not end in a line feed. -/
theorem isNumeral_iff (hlast : t.getLast? ≠ some '\n') : isNumeral t = true ↔ IsNumber t := by
  rw [isNumeral_eq]
  constructor
  · intro h
    cases hm : takeMantissa? (unsigned t) with
    | none =>
      rw [hm] at h
      cases h
    | some p =>
      obtain ⟨m, r⟩ := p
      -- sign, mantissa, exponent, and what is left of the text
      have hcut : t = signOf t ++ (m ++ ((takeExponent r).1 ++ (takeExponent r).2)) := by
        rw [takeExponent_append, ← takeMantissa?_append hm, signOf_append_unsigned]
      simp only [hm, Option.any_some, Bool.or_eq_true, decide_eq_true_eq] at h
      rcases h with hrest | hrest
      · rw [hrest, List.append_nil] at hcut
        exact ⟨_, m, _, sign_signOf t, mantissa_of_takeMantissa? hm, exponent_takeExponent r, hcut⟩
      · -- only a line feed may be left, and the text does not end with one
        refine absurd ?_ hlast
        rw [hcut, hrest]
        simp
  · rintro ⟨s, m, x, hs, hm, hx, rfl⟩
    obtain ⟨c, r, hm', hc⟩ := hm.head
    have hunsigned : unsigned (s ++ (m ++ x)) = m ++ x := by
      refine (unsigned_append hs ?_).2
      rw [hm']
      exact not_isSigned hc _
    rw [hunsigned, takeMantissa?_append_of_mantissa hm hx.head, Option.any_some, takeExponent_of_exponent hx]
    rfl

/-- A text that is taken whole is a number without a sign. -/
theorem isNumber_of_take? (h : take? t = some (t, [])) : IsNumber t := by
  obtain ⟨⟨m, r⟩, hm, e⟩ := Option.map_eq_some_iff.mp h
  have hmantissa := mantissa_of_takeMantissa? hm
  simp only at e
  split at e
  · obtain ⟨rfl, -⟩ := Prod.mk.inj e
    exact ⟨[], m, [], .inl rfl, hmantissa, .none, by simp⟩
  · obtain ⟨ht, -⟩ := Prod.mk.inj e
    exact ⟨[], m, _, .inl rfl, hmantissa, exponent_takeExponent r, ht.symm⟩

end Numeral

end Trellis
