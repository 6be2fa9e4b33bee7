import Trellis.Code.Await
import Trellis.Proofs.CodeText
import Trellis.Proofs.Insertion

/-!
# Missing awaits

`insertAwaits` writes `await ` wherever a call lacks it, inside strings too.  Whether a call lacks it is decided between
two barriers: a quote, a brace or another character that no call and no `await` can hold.  So the awaits of a text are
the awaits of its pieces (`withAwaitsFrom_barrier`), and the pieces between which a text is cut at its strings come out
each on its own (`segments_withAwaits`).
-/

namespace Trellis

/-! ### Names before a barrier -/

namespace Text

variable {b : Char} {p x y r n rest : Text}

theorem takeWhile_barrier {f : Char → Bool} (hb : f b = false) : (x ++ b :: y).takeWhile f = x.takeWhile f := by
  induction x with
  | nil => simp [hb]
  | cons c x ih => rw [List.cons_append, List.takeWhile_cons, List.takeWhile_cons, ih]

theorem dropWhile_barrier {f : Char → Bool} (hb : f b = false) :
    (x ++ b :: y).dropWhile f = x.dropWhile f ++ b :: y := by
  induction x with
  | nil => simp [hb]
  | cons c x ih =>
    rw [List.cons_append, List.dropWhile_cons, List.dropWhile_cons, ih]
    split <;> rfl

theorem startsWith_barrier (hb : b ∉ p) : startsWith (x ++ b :: y) p = startsWith x p := by
  unfold startsWith
  fun_induction after? p x with
  | case1 x => rfl
  | case2 a p =>
    have hne : ¬ a = b := fun h => hb (h ▸ List.mem_cons_self)
    rw [List.nil_append, after?, if_neg hne]
  | case3 p a x ih =>
    rw [List.cons_append, after?, if_pos rfl]
    exact ih fun h => hb (List.mem_cons_of_mem _ h)
  | case4 a p c x hne => rw [List.cons_append, after?, if_neg hne]

theorem isNameStart_eq_false (hb : isNamePart b = false) : isNameStart b = false := by
  by_contra h
  rw [isNamePart_of_isNameStart (by simpa using h)] at hb
  cases hb

theorem takeName?_barrier (hb : isNamePart b = false) :
    takeName? (x ++ b :: y) = (takeName? x).map fun n => (n.1, n.2 ++ b :: y) := by
  cases x with
  | nil => simp [takeName?, isNameStart_eq_false hb]
  | cons c x =>
    rw [List.cons_append, takeName?, takeName?, takeWhile_barrier hb, dropWhile_barrier hb]
    split <;> rfl

theorem dottedTail_of_some (h : takeName? r = some (n, rest)) :
    dottedTail ('.' :: r) = ('.' :: n ++ (dottedTail rest).1, (dottedTail rest).2) := by
  rw [dottedTail.eq_def]
  simp only
  split
  · next n' rest' h' =>
    obtain ⟨rfl, rfl⟩ := Prod.mk.inj (Option.some.inj (h.symm.trans h'))
    rfl
  · next h' => rw [h] at h'; cases h'

theorem dottedTail_of_none (h : takeName? r = none) : dottedTail ('.' :: r) = ([], '.' :: r) := by
  rw [dottedTail.eq_def]
  simp only
  split
  · next h' => rw [h] at h'; cases h'
  · rfl

theorem dottedTail_of_ne (h : x.head? ≠ some '.') : dottedTail x = ([], x) := by
  rw [dottedTail.eq_def]
  split
  · exact absurd rfl h
  · rfl

theorem dottedTail_barrier (hb : isNamePart b = false) (hdot : b ≠ '.') :
    dottedTail (x ++ b :: y) = ((dottedTail x).1, (dottedTail x).2 ++ b :: y) := by
  fun_induction dottedTail x with
  | case1 r n rest h _ ih =>
    have hn : takeName? (r ++ b :: y) = some (n, rest ++ b :: y) := by
      rw [takeName?_barrier hb, h]
      rfl
    rw [List.cons_append, dottedTail_of_some hn, ih]
  | case2 r h =>
    have hn : takeName? (r ++ b :: y) = none := by
      rw [takeName?_barrier hb, h]
      rfl
    rw [List.cons_append, dottedTail_of_none hn]
  | case3 x hne =>
    refine dottedTail_of_ne ?_
    cases x with
    | nil => simpa using hdot
    | cons c x =>
      intro h
      obtain rfl := Option.some.inj h
      exact hne x rfl

theorem dottedName?_barrier (hb : isNamePart b = false) (hdot : b ≠ '.') :
    dottedName? (x ++ b :: y) = (dottedName? x).map fun n => (n.1, n.2 ++ b :: y) := by
  unfold dottedName?
  rw [takeName?_barrier hb]
  cases takeName? x with
  | none => rfl
  | some n => simp [dottedTail_barrier hb hdot]

end Text

namespace Code

/-! ### Barriers -/

/-- A character that no call holds before its arguments, and that stands before no call as a part of it. -/
def isBarrier (c : Char) : Bool := !joinsName c && !Text.isBlank c && c ≠ '('

variable {b c : Char} {before t u v x y : Text}

theorem isBarrier_iff :
    isBarrier b = true ↔ Text.isNamePart b = false ∧ b ≠ '.' ∧ Text.isBlank b = false ∧ b ≠ '(' := by
  simp [isBarrier, joinsName, and_assoc]

theorem isBarrier_of_isQuote (h : isQuote b = true) : isBarrier b = true := by
  simp only [isQuote, Bool.or_eq_true, decide_eq_true_eq] at h
  rcases h with (rfl | rfl) | rfl <;> decide

theorem isAsyncCall_barrier (hb : isBarrier b = true) : isAsyncCall (x ++ b :: y) = isAsyncCall x := by
  obtain ⟨hpart, hdot, hblank, hparen⟩ := isBarrier_iff.mp hb
  have hcall : dottedCall? (x ++ b :: y) = dottedCall? x := by
    unfold dottedCall?
    rw [Text.dottedName?_barrier hpart hdot]
    cases Text.dottedName? x with
    | none => rfl
    | some n =>
      have hhead : (Text.trimStart (n.2 ++ b :: y)).head? = some '(' ↔ (Text.trimStart n.2).head? = some '(' := by
        unfold Text.trimStart
        rw [Text.dropWhile_barrier hblank]
        cases n.2.dropWhile Text.isBlank with
        | nil => simp [hparen]
        | cons d r => rfl
      simp [hhead]
  unfold isAsyncCall
  rw [hcall]

theorem isAsyncCall_of_barrier (hb : isBarrier b = true) : isAsyncCall (b :: y) = false := by
  have h := isAsyncCall_barrier (x := []) (y := y) hb
  rw [List.nil_append] at h
  rw [h]
  rfl

/-- What stands before a barrier does not count. -/
theorem needsAwait_behind (hb : isBarrier b = true) : needsAwait (u ++ b :: v) t = needsAwait u t := by
  obtain ⟨hpart, hdot, hblank, -⟩ := isBarrier_iff.mp hb
  have hjoins : ((u ++ b :: v).head?.map joinsName).getD false = (u.head?.map joinsName).getD false := by
    cases u with
    | nil => simp [joinsName, hpart, hdot]
    | cons c u => rfl
  have hawaited : isAwaited (u ++ b :: v) = isAwaited u := by
    have hword : ∀ w : Text, (w.all Text.isNamePart) = true → b ∉ w := by
      intro w hw hmem
      rw [List.all_eq_true.mp hw b hmem] at hpart
      cases hpart
    unfold isAwaited Text.trimStart
    rw [Text.dropWhile_barrier hblank]
    simp only
    rw [Text.startsWith_barrier (hword _ (by decide)), Text.startsWith_barrier (hword _ (by decide))]
  unfold needsAwait
  rw [hjoins, hawaited]

theorem needsAwait_barrier (hb : isBarrier b = true) : needsAwait before (x ++ b :: y) = needsAwait before x := by
  unfold needsAwait
  rw [isAsyncCall_barrier hb]

theorem needsAwait_of_barrier (hb : isBarrier b = true) : needsAwait before (b :: y) = false := by
  unfold needsAwait
  rw [isAsyncCall_of_barrier hb]
  simp

/-! ### Insertion -/

/-- The text with an `await` before every call that lacks one; `before` is the text before it, last character first. -/
def withAwaitsFrom (before t : Text) : Text := (insertAwaitsFrom before t).1

/-- The text with an `await` before every call that lacks one. -/
def withAwaits (t : Text) : Text := withAwaitsFrom [] t

/-- A call in the text lacks its `await`; `before` is the text before it, last character first. -/
def LacksAwaitFrom (before t : Text) : Prop := ∃ x y, t = x ++ y ∧ needsAwait (x.reverse ++ before) y = true

/-- A call in the text lacks its `await`. -/
def LacksAwait (t : Text) : Prop := LacksAwaitFrom [] t

theorem withAwaitsFrom_of_needs (h : needsAwait before (c :: t) = true) :
    withAwaitsFrom before (c :: t) = "await " ++ c :: withAwaitsFrom (c :: before) t := by
  unfold withAwaitsFrom
  rw [insertAwaitsFrom]
  simp only [if_pos h]

theorem withAwaitsFrom_of_not_needs (h : needsAwait before (c :: t) = false) :
    withAwaitsFrom before (c :: t) = c :: withAwaitsFrom (c :: before) t := by
  unfold withAwaitsFrom
  rw [insertAwaitsFrom]
  simp only [h, Bool.false_eq_true, if_false]

/-- Behind a barrier a text is rewritten as it is on its own. -/
theorem withAwaitsFrom_behind (hb : isBarrier b = true) :
    withAwaitsFrom (u ++ b :: v) t = withAwaitsFrom u t := by
  induction t generalizing u with
  | nil => rfl
  | cons c t ih =>
    have hneeds : needsAwait (u ++ b :: v) (c :: t) = needsAwait u (c :: t) := needsAwait_behind hb
    have hrest : withAwaitsFrom (c :: (u ++ b :: v)) t = withAwaitsFrom (c :: u) t := ih (u := c :: u)
    cases h : needsAwait u (c :: t) with
    | true => rw [withAwaitsFrom_of_needs h, withAwaitsFrom_of_needs (hneeds.trans h), hrest]
    | false => rw [withAwaitsFrom_of_not_needs h, withAwaitsFrom_of_not_needs (hneeds.trans h), hrest]

theorem withAwaitsFrom_of_barrier (hb : isBarrier b = true) : withAwaitsFrom before (b :: t) = b :: withAwaits t := by
  rw [withAwaitsFrom_of_not_needs (needsAwait_of_barrier hb)]
  exact congrArg (b :: ·) (withAwaitsFrom_behind (u := []) hb)

/-- **The awaits of a text are those of its pieces** on both sides of a barrier. -/
theorem withAwaitsFrom_barrier (hb : isBarrier b = true) :
    withAwaitsFrom before (x ++ b :: y) = withAwaitsFrom before x ++ b :: withAwaits y := by
  induction x generalizing before with
  | nil => exact withAwaitsFrom_of_barrier hb
  | cons c x ih =>
    have hneeds : needsAwait before (c :: (x ++ b :: y)) = needsAwait before (c :: x) :=
      needsAwait_barrier (x := c :: x) hb
    cases h : needsAwait before (c :: x) with
    | true =>
      rw [List.cons_append, withAwaitsFrom_of_needs h, withAwaitsFrom_of_needs (hneeds.trans h), ih]
      simp
    | false =>
      rw [List.cons_append, withAwaitsFrom_of_not_needs h, withAwaitsFrom_of_not_needs (hneeds.trans h), ih,
        List.cons_append]

theorem withAwaits_barrier (hb : isBarrier b = true) : withAwaits (x ++ b :: y) = withAwaits x ++ b :: withAwaits y :=
  withAwaitsFrom_barrier hb

/-- Where an `await` is written. -/
structure AwaitPlace (before w rest : Text) : Prop where
  word : w = "await "
  lacks : needsAwait before rest = true

theorem inserted_awaits (before t : Text) : Inserted AwaitPlace before t (withAwaitsFrom before t) := by
  induction t generalizing before with
  | nil => exact .nil
  | cons c t ih =>
    cases h : needsAwait before (c :: t) with
    | true =>
      rw [withAwaitsFrom_of_needs h]
      exact .insert ⟨rfl, h⟩ (.keep c (ih (c :: before)))
    | false =>
      rw [withAwaitsFrom_of_not_needs h]
      exact .keep c (ih (c :: before))

theorem lacksAwaitFrom_cons :
    LacksAwaitFrom before (c :: t) ↔ needsAwait before (c :: t) = true ∨ LacksAwaitFrom (c :: before) t := by
  constructor
  · rintro ⟨x, y, hxy, h⟩
    cases x with
    | nil =>
      rw [List.nil_append] at hxy
      exact .inl (hxy ▸ h)
    | cons d x =>
      obtain ⟨rfl, rfl⟩ := List.cons.inj hxy
      refine .inr ⟨x, y, rfl, ?_⟩
      rwa [List.reverse_cons, List.append_assoc] at h
  · rintro (h | ⟨x, y, rfl, h⟩)
    · exact ⟨[], c :: t, rfl, h⟩
    · refine ⟨c :: x, y, rfl, ?_⟩
      rwa [List.reverse_cons, List.append_assoc]

theorem not_lacksAwaitFrom_nil : ¬ LacksAwaitFrom before [] := by
  rintro ⟨x, y, hxy, h⟩
  obtain ⟨-, rfl⟩ := List.append_eq_nil_iff.mp hxy.symm
  unfold needsAwait at h
  rw [show isAsyncCall [] = false from rfl] at h
  simp at h

theorem insertAwaitsFrom_changed : (insertAwaitsFrom before t).2 = true ↔ LacksAwaitFrom before t := by
  induction t generalizing before with
  | nil => exact ⟨nofun, fun h => absurd h not_lacksAwaitFrom_nil⟩
  | cons c t ih =>
    rw [lacksAwaitFrom_cons, ← ih, insertAwaitsFrom]
    cases h : needsAwait before (c :: t) with
    | true => simp only [if_true, true_or]
    | false => simp only [Bool.false_eq_true, if_false, false_or]

/-- A text stays as it is exactly when no call in it lacks its `await`. -/
theorem withAwaitsFrom_eq_self_iff : withAwaitsFrom before t = t ↔ ¬ LacksAwaitFrom before t := by
  induction t generalizing before with
  | nil => exact ⟨fun _ => not_lacksAwaitFrom_nil, fun _ => rfl⟩
  | cons c t ih =>
    rw [lacksAwaitFrom_cons, not_or, ← @ih (c :: before)]
    cases h : needsAwait before (c :: t) with
    | true =>
      have hle := (inserted_awaits (c :: before) t).length_le
      refine ⟨fun heq => ?_, fun hne => absurd rfl hne.1⟩
      rw [withAwaitsFrom_of_needs h] at heq
      have hlen := congrArg List.length heq
      rw [List.length_append, List.length_cons, List.length_cons] at hlen
      have hawait : List.length ("await " : Text) = 6 := rfl
      omega
    | false =>
      rw [withAwaitsFrom_of_not_needs h, List.cons.injEq]
      exact ⟨fun heq => ⟨nofun, heq.2⟩, fun heq => ⟨rfl, heq.2⟩⟩

/-! ### Awaits and strings -/

theorem isNameStart_of_isAsyncCall (h : isAsyncCall t = true) : ∃ c ∈ t.head?, Text.isNameStart c = true := by
  unfold isAsyncCall dottedCall? Text.dottedName? at h
  cases t with
  | nil => cases h
  | cons c t =>
    refine ⟨c, rfl, ?_⟩
    by_contra hc
    simp [Text.takeName?, hc] at h

theorem isInert_of_isNamePart (h : Text.isNamePart c = true) : isInert c = true := by
  rw [isInert_iff]
  refine ⟨?_, ?_, ?_⟩
  · by_contra hq
    have hbarrier := isBarrier_of_isQuote (by simpa using hq)
    rw [(isBarrier_iff.mp hbarrier).1] at h
    cases h
  · rintro rfl
    revert h
    decide
  · rintro rfl
    revert h
    decide

theorem AwaitPlace.harmless {w rest : Text} (h : AwaitPlace before w rest) : Harmless before w rest := by
  refine ⟨?_, .inr ?_⟩
  · rw [h.word]
    exact List.all_eq_true.mp (by decide)
  · have hcall : isAsyncCall rest = true := by
      have hlacks := h.lacks
      simp only [needsAwait, Bool.and_eq_true] at hlacks
      exact hlacks.1.2
    obtain ⟨c, hc, hstart⟩ := isNameStart_of_isAsyncCall hcall
    exact ⟨c, hc, isInert_of_isNamePart (Text.isNamePart_of_isNameStart hstart)⟩

/-- A whole string with its quotes. -/
inductive IsString : Text → Prop
  | intro {q : Char} {b : Text} : isQuote q = true → takeString? q (b ++ [q]) = some (b ++ [q], []) →
      IsString (q :: (b ++ [q]))

theorem isString_of_takeString? {q : Char} (hq : isQuote q = true) (h : takeString? q t = some (u, v)) :
    IsString (q :: u) := by
  have hlast := head?_reverse_of_takeString? h []
  rw [List.append_nil] at hlast
  obtain ⟨r, hr⟩ := List.head?_eq_some_iff.mp hlast
  have hu : u = r.reverse ++ [q] := by
    rw [← List.reverse_reverse u, hr, List.reverse_cons]
  have hend := takeString?_extend h []
  rw [List.append_nil, hu] at hend
  rw [hu]
  exact .intro hq hend

theorem isString_segments (t : Text) : ∀ x ∈ (segments t).strings, IsString x.1 := by
  fun_induction segments t with
  | case1 => exact List.forall_mem_nil _
  | case2 c r hq b rest hb hlength s ih =>
    exact List.forall_mem_cons.mpr ⟨isString_of_takeString? hq hb, ih⟩
  | case3 c r hq hb s ih => exact ih
  | case4 c r hq s ih => exact ih

/-- A rewriting that treats the text on each side of a quote apart. -/
structure SplitsAtQuotes (f : Text → Text) : Prop where
  nil : f [] = []
  quote : ∀ {q : Char} (x y : Text), isQuote q = true → f (x ++ q :: y) = f x ++ q :: f y

/-- Such a rewriting treats each string apart from what stands around it. -/
theorem SplitsAtQuotes.string {f : Text → Text} (hf : SplitsAtQuotes f) {s : Text} (hs : IsString s) (x y : Text) :
    f (x ++ (s ++ y)) = f x ++ (f s ++ f y) := by
  cases hs with
  | @intro q b hq _ =>
    have hwhole : f (q :: (b ++ [q])) = q :: (f b ++ [q]) := by
      have h := hf.quote [] (b ++ [q]) hq
      rwa [hf.quote b [] hq, hf.nil] at h
    rw [List.cons_append, List.append_assoc, List.singleton_append, hf.quote _ _ hq, hf.quote _ _ hq, hwhole]
    simp

theorem SplitsAtQuotes.flatten {f : Text → Text} (hf : SplitsAtQuotes f) (s : Segments)
    (hs : ∀ x ∈ s.strings, IsString x.1) : f s.flatten = (s.map f).flatten := by
  obtain ⟨code, strings⟩ := s
  unfold Segments.flatten Segments.map
  simp only at hs ⊢
  induction strings generalizing code with
  | nil => simp
  | cons x strings ih =>
    obtain ⟨hx, hs⟩ := List.forall_mem_cons.mp hs
    rw [List.map_cons, List.flatMap_cons, List.flatMap_cons, List.append_assoc, List.append_assoc, ← ih _ hs,
      hf.string hx]

theorem splits_withAwaits : SplitsAtQuotes withAwaits := by
  refine ⟨rfl, fun x y hq => ?_⟩
  exact withAwaits_barrier (isBarrier_of_isQuote hq)

theorem stringPadded_withAwaits {s : Text} (hs : IsString s) : StringPadded s (withAwaits s) := by
  cases hs with
  | @intro q b hq hend =>
    have hbarrier := isBarrier_of_isQuote hq
    have hinner : withAwaitsFrom [q] (b ++ q :: []) = withAwaitsFrom [q] b ++ [q] := withAwaitsFrom_barrier hbarrier
    have hins := (inserted_awaits [q] (b ++ [q])).mono fun _ _ _ hw => hw.harmless
    have hwhole : withAwaits (q :: (b ++ [q])) = q :: (withAwaitsFrom [q] b ++ [q]) := by
      rw [← hinner]
      exact withAwaitsFrom_of_not_needs (needsAwait_of_barrier hbarrier)
    rw [hinner] at hins
    rw [hwhole]
    exact .intro hq hend (takeString?_of_concat hq hins hend) hins

/-- **Awaits are inserted piece by piece**, and the text is still cut at the same strings. -/
theorem segments_withAwaits (t : Text) : segments (withAwaits t) = (segments t).map withAwaits := by
  have hs := isString_segments t
  have hcode : ∀ c, Inserted Harmless [] c (withAwaits c) :=
    fun c => (inserted_awaits [] c).mono fun _ _ _ hw => hw.harmless
  have hpad : (segments t).Padded ((segments t).map withAwaits) := by
    refine ⟨hcode _, List.forall₂_map_right_iff.mpr (List.forall₂_same.mpr fun x hx => ?_)⟩
    exact ⟨stringPadded_withAwaits (hs x hx), hcode _⟩
  have hcut := segments_flatten_of_padded t hpad
  rwa [← splits_withAwaits.flatten _ hs, flatten_segments] at hcut

end Code

end Trellis
