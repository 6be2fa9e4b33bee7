import Trellis.Text.Digit

/-!
# Numerals

A numeral is an optional sign, digits with at most one point (`1`, `1.`, `1.5`, `.5`) and an optional
exponent. Digits of every script count.
-/

namespace Trellis.Numeral

/-- Digits with at most one point at the start of a text; a point alone is none. -/
def takeMantissa? (t : Text) : Option (Text × Text) :=
  let whole := t.takeWhile Text.isDecimal
  match t.dropWhile Text.isDecimal with
  | '.' :: r =>
    let frac := r.takeWhile Text.isDecimal
    if whole.isEmpty && frac.isEmpty then none
    else some (whole ++ '.' :: frac, r.dropWhile Text.isDecimal)
  | r => if whole.isEmpty then none else some (whole, r)

theorem takeMantissa?_append {t m r : Text} (h : takeMantissa? t = some (m, r)) : t = m ++ r := by
  have whole := List.takeWhile_append_dropWhile (p := Text.isDecimal) (l := t)
  simp only [takeMantissa?] at h
  split at h
  · rename_i hr
    rw [hr] at whole
    split at h
    · simp at h
    · simp only [Option.some.injEq, Prod.mk.injEq] at h
      obtain ⟨rfl, rfl⟩ := h
      rw [List.append_assoc, List.cons_append, List.takeWhile_append_dropWhile]
      exact whole.symm
  · split at h
    · simp at h
    · simp only [Option.some.injEq, Prod.mk.injEq] at h
      obtain ⟨rfl, rfl⟩ := h
      exact whole.symm

theorem takeMantissa?_ne_nil {t m r : Text} (h : takeMantissa? t = some (m, r)) : m ≠ [] := by
  simp only [takeMantissa?] at h
  split at h <;> split at h
  · simp at h
  · simp only [Option.some.injEq, Prod.mk.injEq] at h
    simp [← h.1]
  · simp at h
  · rename_i hd
    simp only [Option.some.injEq, Prod.mk.injEq] at h
    simpa [← h.1] using hd

/-- An exponent at the start of a text; empty when there is none. -/
def takeExponent (t : Text) : Text × Text :=
  match t with
  | e :: r =>
    if e = 'e' || e = 'E' then
      let sign := match r with
        | s :: _ => if s = '+' || s = '-' then [s] else []
        | [] => []
      let r' := r.drop sign.length
      match r'.takeWhile Text.isDecimal with
      | [] => ([], t)
      | digits => (e :: sign ++ digits, r'.dropWhile Text.isDecimal)
    else ([], t)
  | [] => ([], t)

theorem takeExponent_append (t : Text) : (takeExponent t).1 ++ (takeExponent t).2 = t := by
  unfold takeExponent
  cases t with
  | nil => rfl
  | cons e r =>
    simp only
    split
    · generalize hs : (match r with
        | s :: _ => if s = '+' || s = '-' then [s] else []
        | [] => ([] : Text)) = sign
      have hr : sign ++ r.drop sign.length = r := by
        subst hs
        cases r with
        | nil => rfl
        | cons s r => simp only; split <;> simp
      split
      · rfl
      · simp only [List.cons_append, List.append_assoc, List.takeWhile_append_dropWhile, hr]
    · rfl

/-- An unsigned numeral at the start of a text. One that starts with its point takes no exponent. -/
def take? (t : Text) : Option (Text × Text) :=
  (takeMantissa? t).map fun (m, r) =>
    if m.head? = some '.' then (m, r)
    else (m ++ (takeExponent r).1, (takeExponent r).2)

theorem take?_append {t n r : Text} (h : take? t = some (n, r)) : t = n ++ r := by
  obtain ⟨⟨m, r'⟩, hm, e⟩ := Option.map_eq_some_iff.1 h
  have := takeMantissa?_append hm
  simp only at e
  split at e
  · simp only [Prod.mk.injEq] at e
    obtain ⟨rfl, rfl⟩ := e
    exact this
  · simp only [Prod.mk.injEq] at e
    obtain ⟨rfl, rfl⟩ := e
    rw [List.append_assoc, takeExponent_append]
    exact this

theorem take?_ne_nil {t n r : Text} (h : take? t = some (n, r)) : n ≠ [] := by
  obtain ⟨⟨m, r'⟩, hm, e⟩ := Option.map_eq_some_iff.1 h
  have := takeMantissa?_ne_nil hm
  simp only at e
  split at e <;> simp only [Prod.mk.injEq] at e <;> obtain ⟨rfl, rfl⟩ := e <;> simp [this]

/-- The whole text is a numeral, possibly signed, possibly followed by one line feed. -/
def isNumeral (t : Text) : Bool :=
  let unsigned := match t with
    | s :: r => if s = '+' || s = '-' then r else t
    | [] => t
  match takeMantissa? unsigned with
  | none => false
  | some (_, r) =>
    let rest := (takeExponent r).2
    rest = [] || rest = ['\n']

end Trellis.Numeral
