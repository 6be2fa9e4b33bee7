import Trellis.Markup.Escape
import Trellis.Proofs.LiteralValues

/-!
# Expressions in attributes

Inside an attribute the double quotes of an expression become single ones.  The two are characters of the same class for
every part of the scanner but the one that reads quoted text, so tokens without quotes stay what they are
(`takeToken_inExpression`).  A string keeps its end exactly when it holds no unprotected quote of the other kind
(`Token.mixesQuotes`); else it ends there, and what follows is read as something else (`scan_inExpression`).
-/

namespace Trellis

namespace Escape

/-- A double quote becomes a single one. -/
def swapQuote (c : Char) : Char := if c = '"' then '\'' else c

variable {c : Char} {t : Text}

theorem inExpression_eq_map (t : Text) : inExpression t = t.map swapQuote := rfl

theorem inExpression_cons (c : Char) (t : Text) : inExpression (c :: t) = swapQuote c :: inExpression t := rfl

theorem inExpression_append (s t : Text) : inExpression (s ++ t) = inExpression s ++ inExpression t := List.map_append

/-- A class of characters that does not tell the two quotes apart is kept. -/
theorem swapQuote_class {p : Char → Bool} (hp : p '"' = p '\'') (c : Char) : p (swapQuote c) = p c := by
  unfold swapQuote
  split
  · next h => rw [h, hp]
  · rfl

theorem swapQuote_of_not_isQuote (hc : isQuote c = false) : swapQuote c = c := by
  refine if_neg ?_
  rintro rfl
  cases hc

theorem not_mem_inExpression (t : Text) : '"' ∉ inExpression t := by
  intro hmem
  obtain ⟨c, -, hc⟩ := List.mem_map.mp hmem
  by_cases h : c = '"'
  · rw [if_pos h] at hc
    exact absurd hc (by decide)
  · rw [if_neg h] at hc
    exact h hc

theorem mem_inExpression {d : Char} (hd : d ≠ '"') : d ∈ inExpression t ↔ d ∈ t ∨ (d = '\'' ∧ '"' ∈ t) := by
  rw [inExpression_eq_map, List.mem_map]
  constructor
  · rintro ⟨c, hc, rfl⟩
    by_cases h : c = '"'
    · subst h
      exact .inr ⟨rfl, hc⟩
    · rw [swapQuote, if_neg h]
      exact .inl hc
  · rintro (hmem | ⟨rfl, hmem⟩)
    · exact ⟨d, hmem, if_neg hd⟩
    · exact ⟨'"', hmem, rfl⟩

theorem takeWhile_inExpression {p : Char → Bool} (hp : p '"' = p '\'') (t : Text) :
    (inExpression t).takeWhile p = inExpression (t.takeWhile p) := by
  have hclass : p ∘ swapQuote = p := funext (swapQuote_class hp)
  rw [inExpression_eq_map, List.takeWhile_map, hclass, inExpression_eq_map]

theorem dropWhile_inExpression {p : Char → Bool} (hp : p '"' = p '\'') (t : Text) :
    (inExpression t).dropWhile p = inExpression (t.dropWhile p) := by
  have hclass : p ∘ swapQuote = p := funext (swapQuote_class hp)
  rw [inExpression_eq_map, List.dropWhile_map, hclass, inExpression_eq_map]

theorem isEmpty_inExpression (t : Text) : (inExpression t).isEmpty = t.isEmpty := List.isEmpty_map

/-- Any other character stands where it stood. -/
theorem swapQuote_eq_iff {d : Char} (hd : d ≠ '"' ∧ d ≠ '\'') : swapQuote c = d ↔ c = d := by
  have hclass := swapQuote_class (p := (decide <| · = d)) (by simp [hd.1.symm, hd.2.symm]) c
  simpa using hclass

theorem head?_inExpression {d : Char} (hd : d ≠ '"' ∧ d ≠ '\'') :
    (inExpression t).head? = some d ↔ t.head? = some d := by
  cases t with
  | nil => exact Iff.rfl
  | cons c t => simpa [inExpression_cons] using swapQuote_eq_iff hd

/-! ### Numerals and names -/

theorem takeMantissa?_inExpression (t : Text) :
    Numeral.takeMantissa? (inExpression t) =
      (Numeral.takeMantissa? t).map fun p => (inExpression p.1, inExpression p.2) := by
  have hdecimal : Text.isDecimal '"' = Text.isDecimal '\'' := by decide
  have hdrop := dropWhile_inExpression hdecimal t
  by_cases hpoint : (t.dropWhile Text.isDecimal).head? = some '.'
  · obtain ⟨r, hr⟩ := List.head?_eq_some_iff.mp hpoint
    replace hdrop : (inExpression t).dropWhile Text.isDecimal = '.' :: inExpression r := by
      rw [hdrop, hr]
      rfl
    rw [Numeral.takeMantissa?_of_point hr, Numeral.takeMantissa?_of_point hdrop]
    simp only [takeWhile_inExpression hdecimal, dropWhile_inExpression hdecimal, isEmpty_inExpression]
    split
    · rfl
    · rw [Option.map_some, inExpression_append]
      rfl
  · have hpoint' : ((inExpression t).dropWhile Text.isDecimal).head? ≠ some '.' := by
      rwa [hdrop, Ne, head?_inExpression (by decide)]
    rw [Numeral.takeMantissa?_of_ne hpoint, Numeral.takeMantissa?_of_ne hpoint', hdrop,
      takeWhile_inExpression hdecimal, isEmpty_inExpression]
    split <;> rfl

theorem isSigned_inExpression (t : Text) : Numeral.isSigned (inExpression t) = Numeral.isSigned t := by
  simp only [Numeral.isSigned, head?_inExpression (d := '+') (by decide), head?_inExpression (d := '-') (by decide)]

theorem signOf_inExpression (t : Text) : Numeral.signOf (inExpression t) = inExpression (Numeral.signOf t) := by
  unfold Numeral.signOf
  rw [isSigned_inExpression]
  split
  · exact (List.map_take ..).symm
  · rfl

theorem unsigned_inExpression (t : Text) : Numeral.unsigned (inExpression t) = inExpression (Numeral.unsigned t) := by
  unfold Numeral.unsigned
  rw [isSigned_inExpression]
  split
  · exact (List.map_tail ..).symm
  · rfl

theorem takeExponent_inExpression (t : Text) :
    Numeral.takeExponent (inExpression t) =
      (inExpression (Numeral.takeExponent t).1, inExpression (Numeral.takeExponent t).2) := by
  cases t with
  | nil => rfl
  | cons c t =>
    have hdecimal : Text.isDecimal '"' = Text.isDecimal '\'' := by decide
    have hletter := swapQuote_class (p := fun c => c = 'e' || c = 'E') (by decide) c
    rw [inExpression_cons, Numeral.takeExponent_cons, Numeral.takeExponent_cons, hletter, signOf_inExpression,
      unsigned_inExpression, takeWhile_inExpression hdecimal, dropWhile_inExpression hdecimal, isEmpty_inExpression]
    split
    · next h =>
      rw [inExpression_cons, inExpression_append]
    · rfl

theorem take?_inExpression (t : Text) :
    Numeral.take? (inExpression t) = (Numeral.take? t).map fun p => (inExpression p.1, inExpression p.2) := by
  rw [Numeral.take?, Numeral.take?, takeMantissa?_inExpression, Option.map_map, Option.map_map]
  refine congrArg (Option.map · _) (funext fun ⟨m, r⟩ => ?_)
  simp only [Function.comp_apply, head?_inExpression (d := '.') (by decide), takeExponent_inExpression]
  split
  · rfl
  · rw [inExpression_append]

theorem takeName?_inExpression (t : Text) :
    Text.takeName? (inExpression t) = (Text.takeName? t).map fun p => (inExpression p.1, inExpression p.2) := by
  cases t with
  | nil => rfl
  | cons c t =>
    have hstart := swapQuote_class (p := Text.isNameStart) (by decide) c
    have hpart : Text.isNamePart '"' = Text.isNamePart '\'' := by decide
    rw [inExpression_cons, Text.takeName?, Text.takeName?, hstart, takeWhile_inExpression hpart,
      dropWhile_inExpression hpart]
    split <;> rfl

end Escape

namespace Value

open Escape (inExpression swapQuote)

variable {c q : Char} {b e m r t u : Text} {w : Token} {ws rest : List Token}

/-! ### Strings -/

theorem unprotected?_inExpression (u : Text) : unprotected? (inExpression u) = (unprotected? u).map inExpression := by
  fun_induction unprotected? u with
  | case1 => rfl
  | case2 => rfl
  | case3 d u ih => exact (unprotected?_escape (swapQuote d) (inExpression u)).trans ih
  | case4 c u hback ih =>
    have hback' : swapQuote c ≠ '\\' := fun h => hback ((Escape.swapQuote_eq_iff (by decide)).mp h)
    rw [Escape.inExpression_cons, unprotected?_cons hback', ih, Option.map_map, Option.map_map]
    rfl

theorem unbroken_inExpression_iff (hq : q ≠ '"') :
    Unbroken q (inExpression u) ↔ Unbroken q u ∧ (q = '\'' → Unbroken '"' u) := by
  simp only [Unbroken, unprotected?_inExpression, Option.map_eq_some_iff]
  constructor
  · rintro ⟨_, ⟨m, hm, rfl⟩, hnot⟩
    rw [Escape.mem_inExpression hq, not_or] at hnot
    exact ⟨⟨m, hm, hnot.1⟩, fun hsingle => ⟨m, hm, fun hmem => hnot.2 ⟨hsingle, hmem⟩⟩⟩
  · rintro ⟨⟨m, hm, hnot⟩, hdouble⟩
    refine ⟨_, ⟨m, hm, rfl⟩, ?_⟩
    rw [Escape.mem_inExpression hq]
    rintro (hmem | ⟨hsingle, hmem⟩)
    · exact hnot hmem
    · obtain ⟨m', hm', hnot'⟩ := hdouble hsingle
      obtain rfl := Option.some.inj (hm.symm.trans hm')
      exact hnot' hmem

/-- A text that is not unbroken, but ends outside an escape, breaks at its first unprotected quote. -/
theorem exists_break (hq : q ≠ '\\') (hu : unprotected? u = some m) (hmem : q ∈ m) :
    ∃ x y, u = x ++ q :: y ∧ Unbroken q x := by
  fun_induction unprotected? u generalizing m with
  | case1 =>
    obtain rfl := Option.some.inj hu
    cases hmem
  | case2 => cases hu
  | case3 d u ih =>
    obtain ⟨x, y, rfl, hx⟩ := ih hu hmem
    exact ⟨'\\' :: d :: x, y, rfl, unbroken_escape.mpr hx⟩
  | case4 c u hback ih =>
    obtain ⟨m', hm', rfl⟩ := Option.map_eq_some_iff.mp hu
    by_cases hc : c = q
    · subst hc
      exact ⟨[], u, rfl, unbroken_nil c⟩
    · obtain ⟨x, y, rfl, hx⟩ := ih hm' ((List.mem_cons.mp hmem).resolve_left (Ne.symm hc))
      exact ⟨c :: x, y, rfl, (unbroken_cons hback).mpr ⟨hc, hx⟩⟩

/-! ### Tokens -/

/-- The token with its double quotes turned into single ones. -/
def Token.swapped (w : Token) : Token := { w with text := inExpression w.text }

/-- A string that holds an unprotected quote; it is then not the quote that closes the string. -/
def Token.mixesQuotes (w : Token) : Bool :=
  w.kind = .string && (unprotected? w.text.tail.dropLast).any fun m => m.contains '"' || m.contains '\''

theorem mixesQuotes_quoted (hu : unprotected? u = some m) :
    (⟨.string, q :: (u ++ [q])⟩ : Token).mixesQuotes = true ↔ '"' ∈ m ∨ '\'' ∈ m := by
  simp [Token.mixesQuotes, hu]

theorem swapQuote_eq_single (hq : isQuote q = true) (htemplate : q ≠ '`') : swapQuote q = '\'' := by
  simp only [isQuote, htemplate, decide_false, Bool.or_false, Bool.or_eq_true, decide_eq_true_eq] at hq
  rcases hq with rfl | rfl <;> rfl

/-- The body of a quoted token that mixes no quotes stays unbroken. -/
theorem unbroken_inExpression (hq : isQuote q = true) (hu : Unbroken q u)
    (hmix : (⟨quotedKind q, q :: (u ++ [q])⟩ : Token).mixesQuotes = false) :
    Unbroken (swapQuote q) (inExpression u) := by
  obtain ⟨m, hm, hnot⟩ := hu
  by_cases htemplate : q = '`'
  · subst htemplate
    exact (unbroken_inExpression_iff (by decide)).mpr ⟨⟨m, hm, hnot⟩, nofun⟩
  · have hsingle := swapQuote_eq_single hq htemplate
    rw [quotedKind, if_neg htemplate, ← Bool.not_eq_true, mixesQuotes_quoted hm, not_or] at hmix
    rw [hsingle, unbroken_inExpression_iff (by decide)]
    exact ⟨⟨m, hm, hmix.2⟩, fun _ => ⟨m, hm, hmix.1⟩⟩

/-- A quoted token that ends does so at its first unprotected quote. -/
theorem exists_body (hq : isQuote q = true) (hclosed : (takeToken q t).1.kind ≠ .unterminated) :
    ∃ u r, t = u ++ q :: r ∧ Unbroken q u := by
  have htakes := takes_takeToken q t
  generalize (takeToken q t).1 = w, (takeToken q t).2 = r at htakes hclosed
  cases htakes with
  | unterminated => exact absurd rfl hclosed
  | quoted _ _ ht hu => exact ⟨_, _, ht, hu⟩
  | number hnot | identifier hnot | punct hnot =>
    rw [hq] at hnot
    cases hnot

theorem isQuote_of_takeToken (h : (takeToken c t).1.kind = .string) : isQuote c = true := by
  have htakes := takes_takeToken c t
  generalize (takeToken c t).1 = w, (takeToken c t).2 = r at htakes h
  cases htakes with
  | unterminated hq => exact hq
  | quoted hq => exact hq
  | number | identifier | punct => cases h

/-- Without an opening quote the token is read from characters that the swap leaves in their class. -/
theorem takeToken_inExpression_of_not_isQuote (hq : isQuote c = false) (t : Text) :
    takeToken (swapQuote c) (inExpression t) = ((takeToken c t).1.swapped, inExpression (takeToken c t).2) := by
  have hswap := Escape.swapQuote_of_not_isQuote hq
  have hcons : inExpression (c :: t) = c :: inExpression t := by rw [Escape.inExpression_cons, hswap]
  have hnumeral := Escape.take?_inExpression (c :: t)
  have hname := Escape.takeName?_inExpression (c :: t)
  rw [hcons] at hnumeral hname
  rw [hswap, takeToken, takeToken, if_neg (by simp [hq]), if_neg (by simp [hq]), hnumeral, hname]
  cases Numeral.take? (c :: t) with
  | some p => rfl
  | none =>
    cases Text.takeName? (c :: t) with
    | some p => rfl
    | none =>
      have hone : inExpression [c] = [c] := by rw [Escape.inExpression_cons, hswap]; rfl
      simp only [Option.map_none, Token.swapped, hone]

/-- **A token that mixes no quotes keeps its kind and its end.** -/
theorem takeToken_inExpression (hclosed : (takeToken c t).1.kind ≠ .unterminated)
    (hmix : (takeToken c t).1.mixesQuotes = false) :
    takeToken (swapQuote c) (inExpression t) = ((takeToken c t).1.swapped, inExpression (takeToken c t).2) := by
  by_cases hq : isQuote c = true
  · obtain ⟨u, r, rfl, hu⟩ := exists_body hq hclosed
    have hq' : isQuote (swapQuote c) = true := (Escape.swapQuote_class (by decide) c).trans hq
    have hkind : quotedKind (swapQuote c) = quotedKind c := by
      simp only [quotedKind, Escape.swapQuote_eq_iff (d := '`') (by decide)]
    rw [takeToken_quoted hq hu] at hmix ⊢
    have hswapped := unbroken_inExpression hq hu hmix
    rw [Escape.inExpression_append, Escape.inExpression_cons, takeToken_quoted hq' hswapped, hkind]
    simp only [Token.swapped, Escape.inExpression_cons, Escape.inExpression_append]
    rfl
  · exact takeToken_inExpression_of_not_isQuote (by simpa using hq) t

/-- **A string that mixes quotes ends at the first of them.** -/
theorem takeToken_inExpression_of_mixesQuotes (hmix : (takeToken c t).1.mixesQuotes = true) :
    ∃ s r, takeToken (swapQuote c) (inExpression t) = (⟨.string, s⟩, r) ∧
      s <+: inExpression (takeToken c t).1.text ∧ s.length < (takeToken c t).1.text.length := by
  have hstring : (takeToken c t).1.kind = .string := by
    rw [Token.mixesQuotes, Bool.and_eq_true] at hmix
    exact of_decide_eq_true hmix.1
  have hq := isQuote_of_takeToken hstring
  obtain ⟨u, r, rfl, m, hm, hnot⟩ := exists_body hq (by rw [hstring]; nofun)
  rw [takeToken_quoted hq ⟨m, hm, hnot⟩] at hstring hmix ⊢
  -- a template string mixes no quotes
  have htemplate : c ≠ '`' := by
    rintro rfl
    cases hstring
  have hsingle := swapQuote_eq_single hq htemplate
  rw [quotedKind, if_neg htemplate, mixesQuotes_quoted hm] at hmix
  have hmem : '\'' ∈ inExpression m := by
    rw [Escape.mem_inExpression (by decide)]
    exact hmix.symm.imp_right fun h => ⟨rfl, h⟩
  -- the first single quote inside the swapped string
  obtain ⟨x, y, hxy, hx⟩ := exists_break (by decide) (by rw [unprotected?_inExpression, hm, Option.map_some]) hmem
  have htext : inExpression (c :: (u ++ [c])) = '\'' :: (x ++ '\'' :: (y ++ ['\''])) := by
    rw [Escape.inExpression_cons, Escape.inExpression_append, hxy, hsingle, List.append_assoc, List.cons_append]
    exact congrArg (fun d => '\'' :: (x ++ '\'' :: (y ++ [d]))) hsingle
  refine ⟨'\'' :: (x ++ ['\'']), y ++ '\'' :: inExpression r, ?_, ?_, ?_⟩
  · rw [Escape.inExpression_append, Escape.inExpression_cons, hsingle, hxy, List.append_assoc, List.cons_append,
      takeToken_quoted rfl hx]
    rfl
  · rw [htext]
    exact ⟨y ++ ['\''], by simp⟩
  · have hlength := congrArg List.length htext
    rw [Escape.inExpression_eq_map, List.length_map] at hlength
    rw [hlength]
    simp

/-! ### Expressions -/

theorem scan_cons_of_isBlank (hblank : Text.isBlank c = true) (t : Text) : scan (c :: t) = scan t := by
  rw [scan, if_pos hblank]

theorem scan_cons_of_not_isBlank (hblank : Text.isBlank c = false) (t : Text) :
    scan (c :: t) = (takeToken c t).1 :: scan (takeToken c t).2 := by
  rw [scan, if_neg (by simp [hblank])]

theorem isBlank_swapQuote (c : Char) : Text.isBlank (swapQuote c) = Text.isBlank c :=
  Escape.swapQuote_class (by decide) c

/-- **Up to the first string that mixes quotes, the tokens are those of the expression.** -/
theorem scan_inExpression_append (h : scan e = ws ++ rest)
    (hws : ∀ w ∈ ws, w.kind ≠ .unterminated ∧ w.mixesQuotes = false) :
    ∃ t, scan t = rest ∧ scan (inExpression e) = ws.map Token.swapped ++ scan (inExpression t) := by
  fun_induction scan e generalizing ws with
  | case1 =>
    obtain ⟨rfl, rfl⟩ := List.nil_eq_append_iff.mp h
    exact ⟨[], by rw [scan], rfl⟩
  | case2 c t hblank ih =>
    rw [Escape.inExpression_cons, scan_cons_of_isBlank ((isBlank_swapQuote c).trans hblank)]
    exact ih h hws
  | case3 c t hblank ih =>
    have hblank : Text.isBlank c = false := by simpa using hblank
    cases ws with
    | nil => exact ⟨c :: t, (scan_cons_of_not_isBlank hblank t).trans h, rfl⟩
    | cons w ws =>
      obtain ⟨rfl, hrest⟩ := List.cons.inj h
      obtain ⟨⟨hclosed, hmix⟩, hws⟩ := List.forall_mem_cons.mp hws
      obtain ⟨t', ht', hscan⟩ := ih hrest hws
      refine ⟨t', ht', ?_⟩
      rw [Escape.inExpression_cons, scan_cons_of_not_isBlank ((isBlank_swapQuote c).trans hblank),
        takeToken_inExpression hclosed hmix, hscan, List.map_cons, List.cons_append]

/-- The first token, behind blanks. -/
theorem takeToken_of_scan (h : scan t = w :: rest) :
    ∃ c t', w = (takeToken c t').1 ∧
      scan (inExpression t) =
        (takeToken (swapQuote c) (inExpression t')).1 :: scan (takeToken (swapQuote c) (inExpression t')).2 := by
  fun_induction scan t with
  | case1 => cases h
  | case2 c t hblank ih =>
    rw [Escape.inExpression_cons, scan_cons_of_isBlank ((isBlank_swapQuote c).trans hblank)]
    exact ih h
  | case3 c t hblank ih =>
    have hblank : Text.isBlank c = false := by simpa using hblank
    refine ⟨c, t, (List.cons.inj h).1.symm, ?_⟩
    rw [Escape.inExpression_cons, scan_cons_of_not_isBlank ((isBlank_swapQuote c).trans hblank)]

/-- Without mixed quotes the tokens stay, each with its quotes swapped. -/
theorem scan_inExpression_of_unmixed (hclosed : ∀ w ∈ scan e, w.kind ≠ .unterminated)
    (hmix : ∀ w ∈ scan e, w.mixesQuotes = false) : scan (inExpression e) = (scan e).map Token.swapped := by
  obtain ⟨t, ht, hscan⟩ := scan_inExpression_append (List.append_nil _).symm fun w hw => ⟨hclosed w hw, hmix w hw⟩
  have hblanks : Text.Blanks (inExpression t) := by
    intro c hc
    obtain ⟨d, hd, rfl⟩ := List.mem_map.mp hc
    exact (isBlank_swapQuote d).trans (scan_eq_nil_iff.mp ht d hd)
  rw [hscan, scan_eq_nil_iff.mpr hblanks, List.append_nil]

/-- At the first string that mixes quotes a shorter string stands. -/
theorem scan_inExpression_of_mixesQuotes (hclosed : ∀ w ∈ scan e, w.kind ≠ .unterminated)
    (h : scan e = ws ++ w :: rest) (hws : ∀ x ∈ ws, x.mixesQuotes = false) (hmix : w.mixesQuotes = true) :
    ∃ s rest', scan (inExpression e) = ws.map Token.swapped ++ ⟨.string, s⟩ :: rest' ∧
      s <+: inExpression w.text ∧ s.length < w.text.length := by
  have hkeep : ∀ x ∈ ws, x.kind ≠ .unterminated ∧ x.mixesQuotes = false := fun x hx =>
    ⟨hclosed x (by rw [h]; exact List.mem_append_left _ hx), hws x hx⟩
  obtain ⟨t, ht, hscan⟩ := scan_inExpression_append h hkeep
  obtain ⟨c, t', rfl, hfirst⟩ := takeToken_of_scan ht
  obtain ⟨s, r, htoken, hshort⟩ := takeToken_inExpression_of_mixesQuotes hmix
  refine ⟨s, scan r, ?_, hshort⟩
  rw [hscan, hfirst, htoken]

/-- **What the swap does to an expression** whose quoted texts all end.  No double quote is left.  The tokens stay what
they were, each with its quotes swapped, exactly when no string holds an unprotected quote of the other kind; the first
that does is cut short at that quote. -/
theorem scan_inExpression (e : Text) (hclosed : ∀ w ∈ scan e, w.kind ≠ .unterminated) :
    '"' ∉ inExpression e ∧
    ((∀ w ∈ scan e, w.mixesQuotes = false) → (scan (inExpression e)).map (·.kind) = (scan e).map (·.kind)) ∧
    (scan (inExpression e) = (scan e).map Token.swapped ↔ ∀ w ∈ scan e, w.mixesQuotes = false) ∧
    ∀ ws w rest, scan e = ws ++ w :: rest → (∀ x ∈ ws, x.mixesQuotes = false) → w.mixesQuotes = true →
      ∃ s rest', scan (inExpression e) = ws.map Token.swapped ++ ⟨.string, s⟩ :: rest' ∧
        s <+: inExpression w.text ∧ s.length < w.text.length := by
  refine ⟨Escape.not_mem_inExpression e, ?_, ⟨?_, scan_inExpression_of_unmixed hclosed⟩,
    fun ws w rest => scan_inExpression_of_mixesQuotes hclosed⟩
  · intro hmix
    rw [scan_inExpression_of_unmixed hclosed hmix, List.map_map]
    rfl
  · intro hsame
    by_contra hmixed
    -- the first mixed string would keep its length
    obtain ⟨w, hfind⟩ : ∃ w, (scan e).find? Token.mixesQuotes = some w := by
      simpa [← Option.isSome_iff_exists] using hmixed
    obtain ⟨hw, ws, rest, hsplit, hws⟩ := List.find?_eq_some_iff_append.mp hfind
    obtain ⟨s, rest', hscan, -, hshort⟩ :=
      scan_inExpression_of_mixesQuotes hclosed hsplit (fun x hx => by simpa using hws x hx) hw
    rw [hsame, hsplit, List.map_append, List.map_cons] at hscan
    have htoken := (List.cons.inj (List.append_cancel_left hscan)).1
    have hlength : (inExpression w.text).length = s.length := congrArg (·.text.length) htoken
    rw [Escape.inExpression_eq_map, List.length_map] at hlength
    omega

/-- A call whose strings have quotes of one kind each, beside a template that holds both. -/
theorem scan_inExpression_call :
    (∀ w ∈ scan "f(\"a\", 'b', `it's`)", w.kind ≠ .unterminated) ∧
    (scan (inExpression "f(\"a\", 'b', `it's`)")).map (·.kind) = (scan "f(\"a\", 'b', `it's`)").map (·.kind) := by
  have hclosed : ∀ w ∈ scan "f(\"a\", 'b', `it's`)", w.kind ≠ .unterminated := by decide +kernel
  exact ⟨hclosed, (scan_inExpression _ hclosed).2.1 (by decide +kernel)⟩

/-- A string with an apostrophe in double quotes falls apart. -/
theorem scan_inExpression_apostrophe :
    (scan "\"it's\"").map (·.kind) = [.string] ∧
    (scan (inExpression "\"it's\"")).map (·.kind) = [.string, .identifier, .unterminated] := by
  decide +kernel

end Value

end Trellis
