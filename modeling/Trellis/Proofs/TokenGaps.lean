import Trellis.Proofs.LiteralValues
import Trellis.Proofs.QuotedTokens

/-!
# Between the tokens

Scanning loses nothing but blanks.  The tokens of a text stand in it one behind the other, and what is outside them is
blank; a token that is not closed takes the rest of the text (`Lossless`).  The scan goes over the text in rounds, each
of which passes over a blank or takes a token, and it is through after as many rounds as the text has characters at most
(`scan_lossless`).
-/

namespace Trellis.Value

variable {c : Char} {t : Text} {i k : Nat}

/-! ### Places -/

/-- The tokens stand in the text at their places, and nothing but blanks is lost between them. -/
structure Lossless (t : Text) (placed : List (Nat × Token)) : Prop where
  nonempty : ∀ x ∈ placed, x.2.text ≠ []
  stands : ∀ x ∈ placed, x.2.text = (t.drop x.1).take x.2.text.length
  apart : placed.Pairwise fun x y => x.1 + x.2.text.length ≤ y.1
  gaps : ∀ k c, t[k]? = some c → (∃ x ∈ placed, x.1 ≤ k ∧ k < x.1 + x.2.text.length) ∨ Text.isBlank c = true
  unterminated : ∀ before x after, placed = before ++ x :: after → x.2.kind = .unterminated →
    after = [] ∧ x.1 + x.2.text.length = t.length

theorem ne_nil_of_mem_scanAt {x : Nat × Token} (h : x ∈ scanAt i t) : x.2.text ≠ [] := by
  fun_induction scanAt i t with
  | case1 => cases h
  | case2 i c t hblank ih => exact ih h
  | case3 i c t hblank ih =>
    rcases List.mem_cons.mp h with rfl | h
    · exact takeToken_ne_nil c t
    · exact ih h

/-- A character is in a token or blank. -/
theorem scanAt_gaps (h : t[k]? = some c) :
    (∃ x ∈ scanAt i t, x.1 ≤ i + k ∧ i + k < x.1 + x.2.text.length) ∨ Text.isBlank c = true := by
  fun_induction scanAt i t generalizing k with
  | case1 => cases h
  | case2 i d t hblank ih =>
    cases k with
    | zero =>
      obtain rfl : d = c := Option.some.inj h
      exact .inr hblank
    | succ k =>
      refine (ih h).imp_left ?_
      rintro ⟨x, hx, hle, hlt⟩
      exact ⟨x, hx, by omega, by omega⟩
  | case3 i d t hblank ih =>
    have hsplit := takeToken_append d t
    by_cases hk : k < (takeToken d t).1.text.length
    · exact .inl ⟨_, List.mem_cons_self, Nat.le_add_right i k, Nat.add_lt_add_left hk i⟩
    · rw [← hsplit, List.getElem?_append_right (Nat.le_of_not_lt hk)] at h
      refine (ih h).imp_left ?_
      rintro ⟨x, hx, hle, hlt⟩
      exact ⟨x, List.mem_cons_of_mem _ hx, by omega, by omega⟩

/-- A token that is not closed takes the rest of the text. -/
theorem rest_of_unterminated (h : (takeToken c t).1.kind = .unterminated) : (takeToken c t).2 = [] := by
  have htakes := takes_takeToken c t
  generalize (takeToken c t).1 = w, (takeToken c t).2 = r at h htakes ⊢
  cases htakes with
  | unterminated => rfl
  | quoted _ hk =>
    rw [hk, quotedKind] at h
    split at h <;> cases h
  | _ => cases h

theorem scanAt_unterminated {before after : List (Nat × Token)} {x : Nat × Token}
    (h : scanAt i t = before ++ x :: after) (hkind : x.2.kind = .unterminated) :
    after = [] ∧ x.1 + x.2.text.length = i + t.length := by
  fun_induction scanAt i t generalizing before with
  | case1 => simp at h
  | case2 i c t hblank ih =>
    obtain ⟨hafter, hend⟩ := ih h
    exact ⟨hafter, by rw [hend, List.length_cons]; omega⟩
  | case3 i c t hblank ih =>
    have hlength := congrArg List.length (takeToken_append c t)
    rw [List.length_append] at hlength
    cases before with
    | nil =>
      -- an unterminated token takes the rest of the text
      obtain ⟨rfl, hafter⟩ := List.cons.inj h
      have hrest := rest_of_unterminated hkind
      rw [hrest] at hafter hlength
      refine ⟨by rw [← hafter, scanAt], ?_⟩
      show i + (takeToken c t).1.text.length = i + (c :: t).length
      rw [← hlength]
      rfl
    | cons y before =>
      obtain ⟨hafter, hend⟩ := ih (List.cons.inj h).2
      exact ⟨hafter, by omega⟩

theorem lossless_scanAt (t : Text) : Lossless t (scanAt 0 t) where
  nonempty _ hx := ne_nil_of_mem_scanAt hx
  stands x hx := by
    obtain ⟨s, r, rfl, hplace⟩ := exists_of_mem_scanAt hx
    rw [hplace, Nat.zero_add, List.drop_left, List.take_left]
  apart := pairwise_scanAt 0 t
  gaps k c hc := by simpa using scanAt_gaps (i := 0) hc
  unterminated before x after h hkind := by simpa using scanAt_unterminated h hkind

/-! ### Rounds -/

/-- A scan under way: the place it has come to, and the tokens that it has found, each with its place. -/
structure Progress where
  place : Nat := 0
  found : List (Nat × Token) := []

/-- One round of a scan, unless it is at the end of the text. -/
def Progress.next? (t : Text) (p : Progress) : Option Progress :=
  match t.drop p.place with
  | [] => none
  | c :: r =>
    if Text.isBlank c then some { p with place := p.place + 1 }
    else some ⟨p.place + (takeToken c r).1.text.length, p.found ++ [(p.place, (takeToken c r).1)]⟩

/-- Where a scan ends, if it sees the end within `rounds` rounds. -/
def Progress.finish? (t : Text) : (rounds : Nat) → Progress → Option Progress
  | 0, _ => none
  | rounds + 1, p =>
    match p.next? t with
    | none => some p
    | some q => finish? t rounds q

/-- A round goes ahead in the text, and not beyond its end.  What was to be found, without what it finds, is still to be
found behind it. -/
theorem Progress.next?_eq_some {p q : Progress} (h : p.next? t = some q) :
    p.place < q.place ∧ q.place ≤ t.length ∧
      p.found ++ scanAt p.place (t.drop p.place) = q.found ++ scanAt q.place (t.drop q.place) := by
  unfold next? at h
  split at h
  · cases h
  · next c r hdrop =>
    have hlength : t.length - p.place = r.length + 1 := by rw [← List.length_drop, hdrop, List.length_cons]
    split at h
    · -- a blank is passed over
      next hblank =>
      cases h
      refine ⟨Nat.lt_succ_self _, show p.place + 1 ≤ t.length by omega, ?_⟩
      rw [← List.drop_drop, hdrop, scanAt, if_pos hblank]
      rfl
    · next hblank =>
      cases h
      -- a token is not empty, so the round goes ahead
      have hsplit := takeToken_append c r
      have hne := List.length_pos_iff.mpr (takeToken_ne_nil c r)
      have hle : (takeToken c r).1.text.length + (takeToken c r).2.length = r.length + 1 := by
        rw [← List.length_append, hsplit, List.length_cons]
      refine ⟨Nat.lt_add_of_pos_right hne, ?_, ?_⟩
      · show p.place + (takeToken c r).1.text.length ≤ t.length
        omega
      · have hrest : t.drop (p.place + (takeToken c r).1.text.length) = (takeToken c r).2 := by
          rw [← List.drop_drop, hdrop, ← hsplit, List.drop_left]
        simp only [hrest]
        rw [hdrop, scanAt, if_neg hblank, List.append_assoc, List.singleton_append]

theorem Progress.next?_eq_none {p : Progress} (h : p.next? t = none) : t.drop p.place = [] := by
  unfold next? at h
  split at h
  · assumption
  · split at h <;> cases h

/-- A scan with more rounds than there are characters ahead comes to the end of the text. -/
theorem Progress.finish?_eq {p : Progress} {n : Nat} (hp : p.place ≤ t.length) (hn : t.length < p.place + n) :
    finish? t n p = some ⟨t.length, p.found ++ scanAt p.place (t.drop p.place)⟩ := by
  induction n generalizing p with
  | zero => omega
  | succ n ih =>
    rw [finish?]
    cases hnext : p.next? t with
    | none =>
      have hdrop := next?_eq_none hnext
      have hplace : p.place = t.length := Nat.le_antisymm hp (List.drop_eq_nil_iff.mp hdrop)
      rw [hdrop, scanAt, List.append_nil, ← hplace]
    | some q =>
      obtain ⟨hlt, hle, hfound⟩ := next?_eq_some hnext
      rw [hfound]
      exact ih hle (by omega)

/-- **Scanning loses nothing but blanks**, and it comes to an end:  with one round more than the text has characters the
scan is at the end of the text, and what it has found are the tokens, each at its place. -/
theorem scan_lossless (t : Text) :
    ∃ placed, Progress.finish? t (t.length + 1) {} = some ⟨t.length, placed⟩ ∧ placed.map Prod.snd = scan t ∧
      Lossless t placed := by
  refine ⟨scanAt 0 t, ?_, map_snd_scanAt 0 t, lossless_scanAt t⟩
  exact Progress.finish?_eq (Nat.zero_le _) (by simp)

/-- A backslash at the end leaves a string open. -/
example : scan "²x '\\" = [⟨.punct, "²"⟩, ⟨.identifier, "x"⟩, ⟨.unterminated, "'\\"⟩] := by decide +kernel

end Trellis.Value
