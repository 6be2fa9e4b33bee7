import Mathlib.Data.List.Pairwise
import Trellis.Proofs.CodeText
import Trellis.Value

/-!
# What is quoted

A line is stripped of its comment by `findUnquoted`, and a value is cut into tokens by `scan`.  Both pass over quoted
text, each in its own way: for `scan` a backslash protects the next character, for `findUnquoted` it does not.  So the
first sign of a comment is the first token `#`, as long as no token holds a quote of its own that is escaped
(`findUnquoted_scan`).
-/

namespace Trellis.Value

variable {c q : Char} {b r t u v : Text} {i j k : Nat}

/-! ### Tokens and their places -/

/-- The tokens of a text, each with the place where it starts; `i` is the place where the text starts. -/
def scanAt (i : Nat) : Text → List (Nat × Token)
  | [] => []
  | c :: t =>
    if Text.isBlank c then scanAt (i + 1) t
    else (i, (takeToken c t).1) :: scanAt (i + (takeToken c t).1.text.length) (takeToken c t).2
termination_by t => t.length
decreasing_by
  · simp
  · exact takeToken_rest_lt c t

theorem map_snd_scanAt (i : Nat) (t : Text) : (scanAt i t).map Prod.snd = scan t := by
  fun_induction scanAt i t with
  | case1 => rw [scan, List.map_nil]
  | case2 i c t hblank ih => rw [scan, if_pos hblank, ih]
  | case3 i c t hblank ih => rw [scan, if_neg hblank, List.map_cons, ih]

/-- A token stands at its place. -/
theorem exists_of_mem_scanAt {x : Nat × Token} (h : x ∈ scanAt i t) :
    ∃ s r, t = s ++ (x.2.text ++ r) ∧ x.1 = i + s.length := by
  fun_induction scanAt i t with
  | case1 => cases h
  | case2 i c t hblank ih =>
    obtain ⟨s, r, rfl, hplace⟩ := ih h
    exact ⟨c :: s, r, rfl, by rw [hplace, List.length_cons]; omega⟩
  | case3 i c t hblank ih =>
    have hsplit := takeToken_append c t
    rcases List.mem_cons.mp h with rfl | h
    · exact ⟨[], (takeToken c t).2, hsplit.symm, rfl⟩
    · obtain ⟨s, r, hrest, hplace⟩ := ih h
      refine ⟨(takeToken c t).1.text ++ s, r, ?_, ?_⟩
      · rw [List.append_assoc, ← hrest, hsplit]
      · rw [hplace, List.length_append]
        omega

theorem le_of_mem_scanAt {x : Nat × Token} (h : x ∈ scanAt i t) : i ≤ x.1 := by
  obtain ⟨s, -, -, hplace⟩ := exists_of_mem_scanAt h
  omega

/-- A token ends before the next one starts. -/
theorem pairwise_scanAt (i : Nat) (t : Text) :
    (scanAt i t).Pairwise fun x y => x.1 + x.2.text.length ≤ y.1 := by
  fun_induction scanAt i t with
  | case1 => exact .nil
  | case2 i c t hblank ih => exact ih
  | case3 i c t hblank ih => exact .cons (fun y hy => le_of_mem_scanAt hy) ih

/-- Two tokens do not overlap. -/
theorem apart_of_mem_scanAt {x y : Nat × Token} (hx : x ∈ scanAt i t) (hy : y ∈ scanAt i t) (hne : x ≠ y) :
    x.1 + x.2.text.length ≤ y.1 ∨ y.1 + y.2.text.length ≤ x.1 := by
  let Apart (x y : Nat × Token) : Prop := x.1 + x.2.text.length ≤ y.1 ∨ y.1 + y.2.text.length ≤ x.1
  have hpairs : (scanAt i t).Pairwise Apart := (pairwise_scanAt i t).imp .inl
  have : Std.Symm Apart := ⟨fun _ _ => Or.symm⟩
  exact hpairs.forall hx hy hne

/-- The sign of a comment as a token. -/
def hashToken : Token := ⟨.punct, ['#']⟩

/-- The place of the first `#` token of a text that starts at place `i`. -/
def hashFrom (i : Nat) (t : Text) : Option Nat := ((scanAt i t).find? fun x => x.2 = hashToken).map Prod.fst

/-- The place of the first `#` token of a text. -/
def hashPlace? (t : Text) : Option Nat := hashFrom 0 t

theorem mem_of_hashFrom (h : hashFrom i t = some k) : (k, hashToken) ∈ scanAt i t := by
  obtain ⟨⟨k', w⟩, hfind, rfl⟩ := Option.map_eq_some_iff.mp h
  obtain rfl : w = hashToken := by simpa using List.find?_some hfind
  exact List.mem_of_find?_eq_some hfind

theorem le_of_hashFrom (h : hashFrom i t = some k) : i ≤ k := le_of_mem_scanAt (mem_of_hashFrom h)

theorem hashFrom_blank (h : Text.isBlank c = true) : hashFrom i (c :: t) = hashFrom (i + 1) t := by
  rw [hashFrom, scanAt, if_pos h, hashFrom]

theorem hashFrom_token (h : Text.isBlank c = false) :
    hashFrom i (c :: t) =
      if (takeToken c t).1 = hashToken then some i
      else hashFrom (i + (takeToken c t).1.text.length) (takeToken c t).2 := by
  rw [hashFrom, scanAt, if_neg (by simp [h]), List.find?_cons, hashFrom]
  by_cases hhash : (takeToken c t).1 = hashToken
  · simp [hhash]
  · simp [hhash]

/-! ### Quoted tokens -/

/-- The token is a string or a template string. -/
def Token.isQuoted (w : Token) : Bool := w.kind = .string || w.kind = .template

/-- The token holds its own quote behind a backslash, `k` characters from its start. -/
def Token.HoldsQuote (w : Token) (k : Nat) : Prop :=
  w.isQuoted = true ∧ ∃ q u v, w.text = q :: (u ++ '\\' :: q :: v) ∧ v ≠ [] ∧ k = u.length + 2

/-- A quote is escaped inside a quoted token at place `k` of the text. -/
def EscapedQuote (t : Text) (k : Nat) : Prop := ∃ x ∈ scanAt 0 t, ∃ d, x.2.HoldsQuote d ∧ k = x.1 + d

/-- Of a quoted text every quote but the last stands behind a backslash. -/
theorem takeQuoted?_closing (h : takeQuoted? q t = some (b, r)) :
    ∃ u, b = u ++ [q] ∧ ∀ x y, u = x ++ q :: y → x.getLast? = some '\\' := by
  fun_induction takeQuoted? q t generalizing b r with
  | case1 => cases h
  | case2 t =>
    obtain ⟨rfl, -⟩ := Prod.mk.inj (Option.some.inj h)
    exact ⟨[], rfl, by simp⟩
  | case3 => cases h
  | case4 d t hne ih =>
    obtain ⟨⟨b', r'⟩, h', e⟩ := Option.map_eq_some_iff.mp h
    obtain ⟨rfl, rfl⟩ := Prod.mk.inj e
    obtain ⟨u, rfl, hu⟩ := ih h'
    refine ⟨'\\' :: d :: u, rfl, ?_⟩
    -- the quote is the backslash, which it is not, or the protected character, or further on
    rintro (_ | ⟨a, _ | ⟨a', x⟩⟩) y hxy
    · exact absurd (List.cons.inj hxy).1 hne
    · rw [(List.cons.inj hxy).1]
      rfl
    · have hxy := (List.cons.inj (List.cons.inj hxy).2).2
      exact List.mem_getLast?_cons (List.mem_getLast?_cons (hu x y hxy))
  | case5 c t hne hback ih =>
    obtain ⟨⟨b', r'⟩, h', e⟩ := Option.map_eq_some_iff.mp h
    obtain ⟨rfl, rfl⟩ := Prod.mk.inj e
    obtain ⟨u, rfl, hu⟩ := ih h'
    refine ⟨c :: u, rfl, ?_⟩
    rintro (_ | ⟨a, x⟩) y hxy
    · exact absurd (List.cons.inj hxy).1 hne
    · exact List.mem_getLast?_cons (hu x y (List.cons.inj hxy).2)

/-- In quotes nothing is found before the quote that closes them. -/
theorem findUnquotedFrom_quoted (hq : isQuote q = true) (hu : q ∉ u) (t : Text) :
    findUnquotedFrom '#' (some q) (u ++ q :: t) = (findUnquoted '#' t).map (· + (u.length + 1)) := by
  induction u with
  | nil =>
    have hafter : quoteAfter (some q) q = none := by simp [quoteAfter, hq]
    rw [List.nil_append, findUnquotedFrom_cons, if_neg (by simp), hafter]
    rfl
  | cons a u ih =>
    obtain ⟨ha, hu⟩ := not_or.mp (mt List.mem_cons.mpr hu)
    have hafter : quoteAfter (some q) a = some q := by simp [quoteAfter, Ne.symm ha]
    rw [List.cons_append, findUnquotedFrom_cons, if_neg (by simp), hafter, ih hu, Option.map_map]
    rfl

theorem findUnquoted_quoted (hq : isQuote q = true) (hu : q ∉ u) (t : Text) :
    findUnquoted '#' (q :: (u ++ q :: t)) = (findUnquoted '#' t).map (· + (u.length + 2)) := by
  have hhash : q ≠ '#' := by
    rintro rfl
    cases hq
  have hafter : quoteAfter none q = some q := by simp [quoteAfter, hq]
  rw [findUnquoted, findUnquotedFrom_cons, if_neg (by simp [hhash]), hafter, findUnquotedFrom_quoted hq hu,
    Option.map_map]
  rfl

/-! ### Tokens without quotes -/

/-- A text of characters of one kind is neither quoted nor a comment, if the kind has no quotes and no `#`. -/
theorem bare_of_forall {p : Char → Bool} (hp : ['"', '\'', '`', '#'].any p = false) (ht : ∀ c ∈ t, p c = true) :
    Bare '#' t := by
  have hnot : ∀ c ∈ t, c ∉ ['"', '\'', '`', '#'] := fun c hc hmem => List.any_eq_false.mp hp c hmem (ht c hc)
  intro c hc
  simp only [List.mem_cons, List.not_mem_nil, or_false, not_or] at hnot
  obtain ⟨hdouble, hsingle, htick, hhash⟩ := hnot c hc
  exact ⟨by simp [isQuote, hdouble, hsingle, htick], hhash⟩

/-- A character of a numeral. -/
def isNumeralPart (c : Char) : Bool := Text.isDecimal c || ".eE+-".toList.contains c

theorem isNumeralPart_of_isDecimal (h : Text.isDecimal c = true) : isNumeralPart c = true := by
  rw [isNumeralPart, h, Bool.true_or]

theorem isNumeralPart_takeWhile (t : Text) : ∀ c ∈ t.takeWhile Text.isDecimal, isNumeralPart c = true :=
  fun _ hc => isNumeralPart_of_isDecimal (List.mem_takeWhile_imp hc)

theorem isNumeralPart_mantissa (h : Numeral.takeMantissa? t = some (b, r)) : ∀ c ∈ b, isNumeralPart c = true := by
  unfold Numeral.takeMantissa? at h
  simp only at h
  split at h
  · split at h
    · cases h
    · obtain ⟨rfl, -⟩ := Prod.mk.inj (Option.some.inj h)
      refine List.forall_mem_append.mpr ⟨isNumeralPart_takeWhile t, ?_⟩
      exact List.forall_mem_cons.mpr ⟨by decide, isNumeralPart_takeWhile _⟩
  · split at h
    · cases h
    · obtain ⟨rfl, -⟩ := Prod.mk.inj (Option.some.inj h)
      exact isNumeralPart_takeWhile t

theorem isNumeralPart_exponent (t : Text) : ∀ c ∈ (Numeral.takeExponent t).1, isNumeralPart c = true := by
  fun_cases Numeral.takeExponent t with
  | case1 => simp
  | case2 e r he sign r' hsome =>
    have hstart : isNumeralPart e = true := by
      rcases Bool.or_eq_true_iff.mp he with he | he <;> rw [of_decide_eq_true he] <;> decide
    have hsign : ∀ c ∈ sign, isNumeralPart c = true := by
      unfold sign
      split
      · split
        · next s _ hs =>
          rw [List.forall_mem_singleton]
          rcases Bool.or_eq_true_iff.mp hs with hs | hs <;> rw [of_decide_eq_true hs] <;> decide
        · simp
      · simp
    exact List.forall_mem_append.mpr ⟨List.forall_mem_cons.mpr ⟨hstart, hsign⟩, isNumeralPart_takeWhile r'⟩
  | case3 => simp
  | case4 => simp

theorem bare_of_numeral (h : Numeral.take? t = some (b, r)) : Bare '#' b := by
  obtain ⟨⟨m, r'⟩, hm, e⟩ := Option.map_eq_some_iff.mp h
  have hmantissa := isNumeralPart_mantissa hm
  refine bare_of_forall (p := isNumeralPart) (by decide) ?_
  simp only at e
  split at e
  · obtain ⟨rfl, -⟩ := Prod.mk.inj e
    exact hmantissa
  · obtain ⟨rfl, -⟩ := Prod.mk.inj e
    exact List.forall_mem_append.mpr ⟨hmantissa, isNumeralPart_exponent r'⟩

theorem bare_of_name (h : Text.takeName? t = some (b, r)) : Bare '#' b := by
  cases t with
  | nil => cases h
  | cons c t =>
    rw [Text.takeName?] at h
    split at h
    · next hstart =>
      obtain ⟨rfl, -⟩ := Prod.mk.inj (Option.some.inj h)
      refine bare_of_forall (p := Text.isNamePart) (by decide) ?_
      exact List.forall_mem_cons.mpr ⟨Text.isNamePart_of_isNameStart hstart, fun _ hc => List.mem_takeWhile_imp hc⟩
    · cases h

/-! ### Passing over a token -/

/-- The search for a comment passes over the token. -/
def Token.Passed (w : Token) : Prop :=
  ∀ t, findUnquoted '#' (w.text ++ t) = (findUnquoted '#' t).map (· + w.text.length)

/-- The search finds nothing before the quote that the token holds `k` characters from its start. -/
def Token.PassedTo (w : Token) (k : Nat) : Prop := ∀ t i, findUnquoted '#' (w.text ++ t) = some i → k < i

/-- What the search for a comment does at a token: it ends, passes over the token, or is at odds with the token at a
quote that is escaped. -/
inductive Meets (w : Token) : Prop
  | hash : w = hashToken → Meets w
  | passes : w ≠ hashToken → w.Passed → Meets w
  | differs {k : Nat} : w ≠ hashToken → w.HoldsQuote k → k < w.text.length → w.PassedTo k → Meets w

theorem meets_quoted (hq : isQuote q = true) (h : takeQuoted? q t = some (b, r)) :
    Meets ⟨if q = '`' then .template else .string, q :: b⟩ := by
  obtain ⟨u, rfl, hescaped⟩ := takeQuoted?_closing h
  generalize hkind : (if q = '`' then TokenKind.template else .string) = kind
  have hquoted : kind = .string ∨ kind = .template := by
    rw [← hkind]
    split
    · exact .inr rfl
    · exact .inl rfl
  have hne : (⟨kind, q :: (u ++ [q])⟩ : Token) ≠ hashToken := by
    intro heq
    rcases hquoted with rfl | rfl <;> cases (Token.mk.inj heq).1
  by_cases hmem : q ∈ u
  · -- an escaped quote inside: the search takes it for the end, so its finds lie behind it
    obtain ⟨x, y, rfl, hx⟩ := List.eq_append_cons_of_mem hmem
    obtain ⟨x, rfl⟩ := List.getLast?_eq_some_iff.mp (hescaped x y rfl)
    refine .differs hne (k := x.length + 2) ⟨?_, q, x, y ++ [q], ?_, ?_, rfl⟩ ?_ ?_
    · simpa [Token.isQuoted] using hquoted
    · simp
    · simp
    · simp only [List.length_cons, List.length_append]
      omega
    · intro t i hfind
      have hsplit : q :: (x ++ ['\\'] ++ q :: y ++ [q]) ++ t = q :: ((x ++ ['\\']) ++ q :: (y ++ [q] ++ t)) := by simp
      rw [hsplit, findUnquoted_quoted hq hx] at hfind
      obtain ⟨j, -, rfl⟩ := Option.map_eq_some_iff.mp hfind
      rw [List.length_append, List.length_singleton]
      omega
  · -- no quote inside: both pass over the whole token
    refine .passes hne fun t => ?_
    have hsplit : q :: (u ++ [q]) ++ t = q :: (u ++ q :: t) := by simp
    rw [hsplit, findUnquoted_quoted hq hmem, List.length_cons, List.length_append]
    rfl

theorem passed_of_bare {w : Token} (h : Bare '#' w.text) : w.Passed := fun t => findUnquoted_bare_append h t

/-- A token that is closed is met in one of the three ways. -/
theorem meets_takeToken (h : (takeToken c t).1.kind ≠ .unterminated) : Meets (takeToken c t).1 := by
  unfold takeToken at h ⊢
  split
  · next hq =>
    rw [if_pos hq] at h
    cases hquoted : takeQuoted? c t with
    | none =>
      rw [hquoted] at h
      exact absurd rfl h
    | some p => exact meets_quoted hq hquoted
  · next hq =>
    cases hnumeral : Numeral.take? (c :: t) with
    | some p => exact .passes (by simp [hashToken]) (passed_of_bare (bare_of_numeral hnumeral))
    | none =>
      cases hname : Text.takeName? (c :: t) with
      | some p => exact .passes (by simp [hashToken]) (passed_of_bare (bare_of_name hname))
      | none =>
        by_cases hhash : c = '#'
        · exact .hash (by rw [hhash, hashToken])
        · refine .passes (by simp [hashToken, hhash]) (passed_of_bare ?_)
          exact List.forall_mem_singleton.mpr ⟨by simpa using hq, hhash⟩

/-! ### The search and the tokens -/

theorem bare_of_isBlank (h : Text.isBlank c = true) : Bare '#' [c] := by
  refine bare_of_forall (p := Text.isBlank) (by decide) ?_
  rwa [List.forall_mem_singleton]

/-- Behind what is passed over, the search is the search in the rest. -/
theorem find_passed {s : Text} (hpassed : findUnquoted '#' (s ++ t) = (findUnquoted '#' t).map (· + s.length))
    (hrest : ∀ i', i' + s.length = i → (findUnquoted '#' t = some i' ↔ hashFrom (j + s.length) t = some (j + s.length + i'))) :
    findUnquoted '#' (s ++ t) = some i ↔ hashFrom (j + s.length) t = some (j + i) := by
  rw [hpassed, Option.map_eq_some_iff]
  constructor
  · rintro ⟨i', hfind, hi⟩
    rw [(hrest i' hi).mp hfind]
    congr 1
    omega
  · intro hhash
    have hle := le_of_hashFrom hhash
    refine ⟨i - s.length, (hrest _ (by omega)).mpr ?_, by omega⟩
    rw [hhash]
    congr 1
    omega

/-- The search finds at a place what the tokens have there, if no quote is escaped up to that place. -/
theorem find_iff_hashFrom (hclosed : ∀ x ∈ scanAt j t, x.2.kind ≠ .unterminated)
    (hescaped : ∀ x ∈ scanAt j t, ∀ d, x.2.HoldsQuote d → j + i < x.1 + d) :
    findUnquoted '#' t = some i ↔ hashFrom j t = some (j + i) := by
  fun_induction scanAt j t generalizing i with
  | case1 j =>
    have hnone : hashFrom j [] = none := by rw [hashFrom, scanAt]; rfl
    rw [hnone]
    exact ⟨nofun, nofun⟩
  | case2 j c t hblank ih =>
    rw [hashFrom_blank hblank]
    refine find_passed (s := [c]) (findUnquoted_bare_append (bare_of_isBlank hblank) t) ?_
    rintro i' rfl
    refine ih hclosed fun x hx d hd => ?_
    have hlt := hescaped x hx d hd
    rw [List.length_singleton] at hlt
    omega
  | case3 j c t hblank ih =>
    obtain ⟨hfirst, hclosed⟩ := List.forall_mem_cons.mp hclosed
    obtain ⟨hheld, hescaped⟩ := List.forall_mem_cons.mp hescaped
    rw [hashFrom_token (by simpa using hblank)]
    rw [← takeToken_append c t]
    rcases meets_takeToken hfirst with heq | ⟨hne, hpassed⟩ | ⟨hne, hholds, hlt, hpassed⟩
    · -- the token is the sign itself
      rw [if_pos heq, heq, findUnquoted, hashToken, List.singleton_append, findUnquotedFrom_cons, if_pos ⟨rfl, rfl⟩,
        Option.some.injEq, Option.some.injEq]
      omega
    · -- the search passes over the token
      rw [if_neg hne]
      refine find_passed (hpassed _) ?_
      rintro i' rfl
      refine ih hclosed fun x hx d hd => ?_
      have hlt := hescaped x hx d hd
      omega
    · rw [if_neg hne]
      -- the token holds an escaped quote, which is behind the place in question
      have hbefore := hheld _ hholds
      constructor
      · intro hfind
        have hbehind := hpassed _ i hfind
        omega
      · intro hhash
        have hbehind := le_of_hashFrom hhash
        omega

/-- **Comments and values agree on what is quoted**, for every text whose quotes are closed.  Where no token holds an
escaped quote of its own, the first sign of a comment outside quotes is the first token `#`.  In any text the two agree
up to the first such quote, and a comment that is found before it is not cut out of a string or template string. -/
theorem findUnquoted_scan (t : Text) (hclosed : ∀ w ∈ scan t, w.kind ≠ .unterminated) :
    ((∀ k, ¬ EscapedQuote t k) → findUnquoted '#' t = hashPlace? t) ∧
    ∀ i, (∀ k, EscapedQuote t k → i < k) →
      (findUnquoted '#' t = some i ↔ hashPlace? t = some i) ∧
      (findUnquoted '#' t = some i → stripComment t = Text.trim (t.take i) ∧
        ∀ x ∈ scanAt 0 t, x.2.isQuoted = true → x.1 + x.2.text.length ≤ i ∨ i < x.1) := by
  have hclosed : ∀ x ∈ scanAt 0 t, x.2.kind ≠ .unterminated := by
    intro x hx
    exact hclosed x.2 (map_snd_scanAt 0 t ▸ List.mem_map_of_mem hx)
  have hagree : ∀ i, (∀ k, EscapedQuote t k → i < k) → (findUnquoted '#' t = some i ↔ hashPlace? t = some i) := by
    intro i hi
    have hiff := @find_iff_hashFrom t i 0 hclosed fun x hx d hd => by
      rw [Nat.zero_add]
      exact hi _ ⟨x, hx, d, hd, rfl⟩
    rwa [Nat.zero_add] at hiff
  refine ⟨fun hnone => ?_, fun i hi => ⟨hagree i hi, fun hfind => ⟨?_, fun x hx hquoted => ?_⟩⟩⟩
  · ext i
    exact hagree i fun k hk => absurd hk (hnone k)
  · rw [stripComment, hfind]
  · have hhash := mem_of_hashFrom ((hagree i hi).mp hfind)
    -- the sign is a token of its own, so no quoted token reaches over it
    have hne : x ≠ (i, hashToken) := by
      rintro rfl
      exact Bool.false_ne_true hquoted
    exact apart_of_mem_scanAt hx hhash hne

/-- A string with a quote of another kind, a comment, and an escaped quote behind its sign. -/
theorem findUnquoted_scan_mixed :
    (∀ w ∈ scan "\"it's #1\" # \"\\\"\"", w.kind ≠ .unterminated) ∧
      (∀ k, EscapedQuote "\"it's #1\" # \"\\\"\"" k → 10 < k) ∧
      findUnquoted '#' "\"it's #1\" # \"\\\"\"" = some 10 ∧ hashPlace? "\"it's #1\" # \"\\\"\"" = some 10 := by
  have hclosed : ∀ w ∈ scan "\"it's #1\" # \"\\\"\"", w.kind ≠ .unterminated := by decide +kernel
  have hbehind : ∀ x ∈ scanAt 0 "\"it's #1\" # \"\\\"\"", '\\' ∈ x.2.text → 10 < x.1 := by decide +kernel
  have hescaped : ∀ k, EscapedQuote "\"it's #1\" # \"\\\"\"" k → 10 < k := by
    rintro k ⟨x, hx, d, ⟨-, q, u, v, htext, -⟩, rfl⟩
    have hlt := hbehind x hx (by simp [htext])
    omega
  have hfind : findUnquoted '#' "\"it's #1\" # \"\\\"\"" = some 10 := by decide +kernel
  exact ⟨hclosed, hescaped, hfind, ((findUnquoted_scan _ hclosed).2 10 hescaped).1.mp hfind⟩

/-- A string with an escaped quote is one token, and is cut at the sign behind that quote. -/
theorem escaped_quote_cut :
    scan "\"a\\\"#\"" = [⟨.string, "\"a\\\"#\""⟩] ∧ hashPlace? "\"a\\\"#\"" = none ∧
      findUnquoted '#' "\"a\\\"#\"" = some 4 ∧ stripComment "\"a\\\"#\"" = "\"a\\\"" := by
  decide +kernel

end Trellis.Value
