import Trellis.Proofs.ClientMethods
import Trellis.Proofs.LocalNames
import Trellis.Proofs.NameRuns

/-!
# Calls through dotted names

A dotted call is two or more names with points between them, blanks, and an opening parenthesis, at a place where no
name and no member goes on (`CallAt`).  `insertAwaits` writes `await ` before the dotted calls that may be asynchronous
and do not follow `await` or `new`, each once (`withAwaitsFrom_eq_insertAt`).  What it writes is no call, breaks no call
and parts no call from the `await` before it, so that nothing is left to write a second time (`insertAwaits_stable`).
-/

namespace Trellis

/-! ### Dotted names -/

namespace Text

variable {n r t x y z : Text} {ns : List Text}

/-- Names behind the first one, each with its point. -/
def pointed (ns : List Text) : Text := ns.flatMap ('.' :: ·)

theorem join_point (n : Text) (ns : List Text) : join ['.'] (n :: ns) = n ++ pointed ns := by
  induction ns generalizing n with
  | nil => simp [join, pointed]
  | cons k ns ih =>
    have hjoin : join ['.'] (n :: k :: ns) = n ++ '.' :: join ['.'] (k :: ns) := by
      rw [join, List.intercalate_cons_cons, List.append_assoc]
      rfl
    rw [hjoin, ih k]
    rfl

theorem point_not_mem (hn : isName n = true) : '.' ∉ n :=
  not_mem_of_isNamePart (Code.isNamePart_of_mem_name hn) (by decide)

theorem splitAt_join_point (hn : isName n = true) (hns : ∀ k ∈ ns, isName k = true) :
    splitAt '.' (n ++ pointed ns) = n :: ns := by
  induction ns generalizing n with
  | nil => rw [pointed, List.flatMap_nil, List.append_nil, splitAt_of_not_mem (point_not_mem hn)]
  | cons k ns ih =>
    obtain ⟨hk, hns⟩ := List.forall_mem_cons.mp hns
    have hcut : n ++ pointed (k :: ns) = n ++ '.' :: (k ++ pointed ns) := rfl
    rw [hcut, splitAt_append (point_not_mem hn), ih hk hns]

/-- What a dotted tail takes are names with their points. -/
theorem exists_dottedTail (x : Text) :
    ∃ ns, (∀ n ∈ ns, isName n = true) ∧ (dottedTail x).1 = pointed ns ∧ x = pointed ns ++ (dottedTail x).2 := by
  fun_induction dottedTail x with
  | case1 r n rest h _ ih =>
    obtain ⟨ns, hns, htail, hrest⟩ := ih
    refine ⟨n :: ns, List.forall_mem_cons.mpr ⟨isName_of_takeName? h, hns⟩, ?_, ?_⟩
    · rw [htail]
      rfl
    · show '.' :: r = ('.' :: n ++ pointed ns) ++ (dottedTail rest).2
      rw [List.append_assoc, ← hrest, takeName?_append h]
      rfl
  | case2 r h => exact ⟨[], List.forall_mem_nil _, rfl, rfl⟩
  | case3 x hne => exact ⟨[], List.forall_mem_nil _, rfl, rfl⟩

/-- Names with their points are taken whole where neither a name nor a point follows. -/
theorem dottedTail_pointed (hns : ∀ n ∈ ns, isName n = true) (hz : ∀ c ∈ z.head?, Code.joinsName c = false) :
    dottedTail (pointed ns ++ z) = (pointed ns, z) := by
  induction ns with
  | nil =>
    refine dottedTail_of_ne fun hdot => ?_
    exact absurd (hz '.' hdot) (by decide)
  | cons n ns ih =>
    obtain ⟨hn, hns⟩ := List.forall_mem_cons.mp hns
    have hend : ∀ c ∈ (pointed ns ++ z).head?, isNamePart c = false := by
      intro c hc
      cases ns with
      | nil =>
        have hjoins := hz c hc
        simp only [Code.joinsName, Bool.or_eq_false_iff] at hjoins
        exact hjoins.1
      | cons k ns =>
        obtain rfl : '.' = c := Option.some.inj hc
        decide
    have hcut : pointed (n :: ns) ++ z = '.' :: (n ++ (pointed ns ++ z)) := by simp [pointed]
    rw [hcut, dottedTail_of_some (takeName?_append_of_isName hn hend), ih hns]
    rfl

end Text

namespace Code

/-! ### Calls -/

/-- The text starts with a call through the dotted name `names`. -/
structure StartsCall (names : List Text) (t : Text) : Prop where
  dotted : 2 ≤ names.length
  isName : ∀ n ∈ names, Text.isName n = true
  opens : ∃ blanks rest, Text.Blanks blanks ∧ t = Text.join ['.'] names ++ (blanks ++ '(' :: rest)

/-- A dotted call stands at place `p` of the text. -/
structure CallAt (t : Text) (p : Nat) (names : List Text) : Prop where
  starts : StartsCall names (t.drop p)
  free : ∀ c ∈ (t.take p).getLast?, joinsName c = false

/-- A call through these names may have to be awaited: the first is no known global object, and the last no method known
to be synchronous. -/
def MayWait (names : List Text) : Prop := names.headD [] ∉ syncGlobals ∧ names.getLastD [] ∉ syncMethods

/-- The text ends in `await` or `new`, apart from blanks. -/
def EndsAwaiting (x : Text) : Prop :=
  ∃ y blanks, Text.Blanks blanks ∧ (x = y ++ ("await" ++ blanks) ∨ x = y ++ ("new" ++ blanks))

/-- At place `p` stands a call that may have to be awaited and is not. -/
def UnawaitedAt (t : Text) (p : Nat) : Prop := ∃ names, CallAt t p names ∧ MayWait names ∧ ¬ EndsAwaiting (t.take p)

variable {before before' t u x y : Text} {c : Char} {names : List Text} {p : Nat}

theorem joinsName_of_isBlank (hc : Text.isBlank c = true) : joinsName c = false := by
  have hword : Text.isWord c = false := by
    by_contra hword
    rw [Text.isBlank_of_isWord (by simpa using hword)] at hc
    cases hc
  have hdollar : c ≠ '$' := by
    rintro rfl
    cases hc
  have hdot : c ≠ '.' := by
    rintro rfl
    cases hc
  simp [joinsName, Text.isNamePart, hword, hdollar, hdot]

/-- **The names of a call are read off its text**, in one way. -/
theorem dottedCall?_eq_some_iff : dottedCall? t = some names ↔ StartsCall names t := by
  constructor
  · -- a name is read, then the names behind points, and then a parenthesis must open
    intro h
    unfold dottedCall? Text.dottedName? at h
    cases hname : Text.takeName? t with
    | none => simp [hname] at h
    | some nr =>
      obtain ⟨n, r⟩ := nr
      obtain ⟨ns, hns, htail, hr⟩ := Text.exists_dottedTail r
      have hn := Text.isName_of_takeName? hname
      simp only [hname, Option.map_some, Option.bind_eq_bind, Option.bind_some, htail] at h
      split at h
      · next hcall =>
        obtain ⟨hdot, hopen⟩ := Bool.and_eq_true_iff.mp hcall
        rw [Text.splitAt_join_point hn hns] at h
        obtain rfl := Option.some.inj h
        obtain ⟨rest, hrest⟩ := List.head?_eq_some_iff.mp (of_decide_eq_true hopen)
        refine ⟨?_, List.forall_mem_cons.mpr ⟨hn, hns⟩, (Text.dottedTail r).2.takeWhile Text.isBlank, rest,
          fun d hd => List.mem_takeWhile_imp hd, ?_⟩
        · -- there is a point in the text, and none in a name, so there are two names at least
          cases ns with
          | nil =>
            rw [Text.pointed, List.flatMap_nil, List.append_nil, List.contains_iff_mem] at hdot
            exact absurd hdot (Text.point_not_mem hn)
          | cons k ns => simp
        · rw [Text.join_point, ← hrest, Text.trimStart, List.takeWhile_append_dropWhile, List.append_assoc, ← hr]
          exact Text.takeName?_append hname
      · cases h
  · -- two names at least, so the first one is followed by a point
    rintro ⟨hdotted, hnames, blanks, rest, hblanks, rfl⟩
    obtain ⟨n, k, ns, rfl⟩ : ∃ n k ns, names = n :: k :: ns := by
      rcases names with _ | ⟨n, _ | ⟨k, ns⟩⟩
      · cases hdotted
      · exact absurd hdotted (by simp)
      · exact ⟨n, k, ns, rfl⟩
    obtain ⟨hn, hns⟩ := List.forall_mem_cons.mp hnames
    -- the names end at the blanks or at the parenthesis
    have hstop : ∀ d ∈ (blanks ++ '(' :: rest).head?, joinsName d = false := by
      intro d hd
      cases blanks with
      | nil =>
        obtain rfl : '(' = d := Option.some.inj hd
        decide
      | cons b blanks =>
        obtain rfl : b = d := Option.some.inj hd
        exact joinsName_of_isBlank (hblanks b List.mem_cons_self)
    have hname : Text.takeName? (n ++ (Text.pointed (k :: ns) ++ (blanks ++ '(' :: rest))) =
        some (n, Text.pointed (k :: ns) ++ (blanks ++ '(' :: rest)) := by
      refine Text.takeName?_append_of_isName hn ?_
      rintro d ⟨⟩
      decide
    have hopen : (Text.trimStart (blanks ++ '(' :: rest)).head? = some '(' := by
      rw [Text.trimStart_blanks_append hblanks]
      rfl
    have hdot : (n ++ Text.pointed (k :: ns)).contains '.' = true := by simp [Text.pointed]
    unfold dottedCall? Text.dottedName?
    rw [Text.join_point, List.append_assoc, hname]
    simp only [Option.map_some, Option.bind_eq_bind, Option.bind_some, Text.dottedTail_pointed hns hstop, hdot, hopen,
      decide_true, Bool.and_self, if_true, Text.splitAt_join_point hn hns]

theorem isAsyncCall_iff : isAsyncCall t = true ↔ ∃ names, StartsCall names t ∧ MayWait names := by
  unfold isAsyncCall MayWait
  cases h : dottedCall? t with
  | none =>
    refine ⟨nofun, ?_⟩
    rintro ⟨names, hcall, -⟩
    rw [dottedCall?_eq_some_iff.mpr hcall] at h
    cases h
  | some names =>
    simp only [Bool.and_eq_true, Bool.not_eq_true', List.contains_eq_mem, decide_eq_false_iff_not]
    constructor
    · exact fun hwait => ⟨names, dottedCall?_eq_some_iff.mp h, hwait⟩
    · rintro ⟨names', hcall, hwait⟩
      rw [dottedCall?_eq_some_iff.mpr hcall] at h
      obtain rfl := Option.some.inj h
      exact hwait

theorem isAwaited_iff : isAwaited x.reverse = true ↔ EndsAwaiting x := by
  -- a word that stands before blanks at the end, seen from the end
  have hword : ∀ w : Text, (w.all fun d => !Text.isBlank d) = true → w ≠ [] →
      (Text.startsWith (Text.trimStart x.reverse) w.reverse = true ↔
        ∃ y blanks, Text.Blanks blanks ∧ x = y ++ (w ++ blanks)) := by
    intro w hw hne
    rw [startsWith_iff]
    constructor
    · rintro ⟨r, hr⟩
      have hsplit : x.reverse.takeWhile Text.isBlank ++ Text.trimStart x.reverse = x.reverse :=
        List.takeWhile_append_dropWhile
      refine ⟨r.reverse, (x.reverse.takeWhile Text.isBlank).reverse,
        fun d hd => List.mem_takeWhile_imp (List.mem_reverse.mp hd), ?_⟩
      rw [hr] at hsplit
      simpa using (congrArg List.reverse hsplit).symm
    · rintro ⟨y, blanks, hblanks, rfl⟩
      refine ⟨y.reverse, ?_⟩
      have hlead : Text.Blanks blanks.reverse := fun d hd => hblanks d (List.mem_reverse.mp hd)
      rw [List.reverse_append, List.reverse_append, List.append_assoc, Text.trimStart_blanks_append hlead]
      refine Text.trimStart_eq_self fun d hd => ?_
      obtain ⟨e, r, hr⟩ := List.exists_cons_of_ne_nil (List.reverse_ne_nil_iff.mpr hne)
      rw [hr] at hd
      obtain rfl : e = d := Option.some.inj hd
      simpa using List.all_eq_true.mp hw e (List.mem_reverse.mp (hr ▸ List.mem_cons_self))
  have hawait := hword "await" (by decide) (by decide)
  have hnew := hword "new" (by decide) (by decide)
  unfold isAwaited EndsAwaiting
  simp only [Bool.or_eq_true]
  rw [show ("tiawa" : Text) = ("await" : Text).reverse from rfl, show ("wen" : Text) = ("new" : Text).reverse from rfl,
    hawait, hnew]
  constructor
  · rintro (⟨y, blanks, hblanks, hx⟩ | ⟨y, blanks, hblanks, hx⟩)
    · exact ⟨y, blanks, hblanks, .inl hx⟩
    · exact ⟨y, blanks, hblanks, .inr hx⟩
  · rintro ⟨y, blanks, hblanks, hx | hx⟩
    · exact .inl ⟨y, blanks, hblanks, hx⟩
    · exact .inr ⟨y, blanks, hblanks, hx⟩

/-- An `await` is missing exactly where a call is not awaited. -/
theorem needsAwait_iff_unawaitedAt : needsAwait (t.take p).reverse (t.drop p) = true ↔ UnawaitedAt t p := by
  have hfree : ((t.take p).reverse.head?.map joinsName).getD false = false ↔
      ∀ c ∈ (t.take p).getLast?, joinsName c = false := by
    rw [List.head?_reverse]
    cases (t.take p).getLast? with
    | none => simp
    | some d => simp
  unfold needsAwait UnawaitedAt
  rw [Bool.and_eq_true, Bool.and_eq_true, Bool.not_eq_true', Bool.not_eq_true', hfree, isAsyncCall_iff,
    ← Bool.not_eq_true, isAwaited_iff]
  constructor
  · rintro ⟨⟨hfree, names, hstarts, hwait⟩, hends⟩
    exact ⟨names, ⟨hstarts, hfree⟩, hwait, hends⟩
  · rintro ⟨names, ⟨hstarts, hfree⟩, hwait, hends⟩
    exact ⟨⟨hfree, names, hstarts, hwait⟩, hends⟩

/-! ### Where an `await` is written -/

/-- `w` written into the text at place `p`. -/
def insertAt (w : Text) (p : Nat) (t : Text) : Text := t.take p ++ (w ++ t.drop p)

theorem foldr_insertAt_succ (w : Text) (c : Char) (t : Text) (ps : List Nat) :
    (ps.map (· + 1)).foldr (insertAt w) (c :: t) = c :: ps.foldr (insertAt w) t := by
  induction ps with
  | nil => rfl
  | cons p ps ih =>
    rw [List.map_cons, List.foldr_cons, ih]
    rfl

/-- The awaits are written at the places where they are missing, from the last to the first. -/
theorem withAwaitsFrom_eq_insertAt (before t : Text) :
    ∃ ps : List Nat, ps.Pairwise (· < ·) ∧
      (∀ p, p ∈ ps ↔ needsAwait ((t.take p).reverse ++ before) (t.drop p) = true) ∧
      withAwaitsFrom before t = ps.foldr (insertAt "await ") t := by
  induction t generalizing before with
  | nil =>
    refine ⟨[], .nil, fun p => ?_, rfl⟩
    have hcall : isAsyncCall [] = false := rfl
    simp [needsAwait, hcall]
  | cons c t ih =>
    obtain ⟨ps, hsorted, hmem, hps⟩ := ih (c :: before)
    -- a place in the rest is one further on in the whole text
    have hshift : ∀ p, p + 1 ∈ ps.map (· + 1) ↔
        needsAwait (((c :: t).take (p + 1)).reverse ++ before) ((c :: t).drop (p + 1)) = true := by
      intro p
      rw [List.mem_map]
      constructor
      · rintro ⟨q, hq, heq⟩
        obtain rfl : q = p := Nat.succ.inj heq
        simpa using (hmem q).mp hq
      · intro hneeds
        exact ⟨p, (hmem p).mpr (by simpa using hneeds), rfl⟩
    have hsorted' : (ps.map (· + 1)).Pairwise (· < ·) :=
      List.pairwise_map.mpr (hsorted.imp fun h => Nat.succ_lt_succ h)
    cases h : needsAwait before (c :: t) with
    | true =>
      -- one await is missing at the start
      refine ⟨0 :: ps.map (· + 1), .cons (by simp) hsorted', ?_, ?_⟩
      · rintro (_ | p)
        · simpa using h
        · rw [List.mem_cons, ← hshift p]
          simp
      · rw [withAwaitsFrom_of_needs h, List.foldr_cons, foldr_insertAt_succ, hps]
        rfl
    | false =>
      refine ⟨ps.map (· + 1), hsorted', ?_, ?_⟩
      · rintro (_ | p)
        · simp [h]
        · exact hshift p
      · rw [withAwaitsFrom_of_not_needs h, foldr_insertAt_succ, hps]

/-! ### Calls stay what they are -/

theorem needsAwait_of_joins (hc : joinsName c = true) (before t : Text) : needsAwait (c :: before) t = false := by
  simp [needsAwait, hc]

theorem needsAwait_of_not_isNameStart (hc : Text.isNameStart c = false) (before t : Text) :
    needsAwait before (c :: t) = false := by
  have hcall : isAsyncCall (c :: t) = false := by
    by_contra hcall
    obtain ⟨d, hd, hstart⟩ := isNameStart_of_isAsyncCall (by simpa using hcall)
    obtain rfl : c = d := Option.some.inj hd
    rw [hc] at hstart
    cases hstart
  simp [needsAwait, hcall]

/-- Nothing is written inside a name. -/
theorem withAwaitsFrom_parts (hx : ∀ d ∈ x, Text.isNamePart d = true) (hc : joinsName c = true) (before y : Text) :
    withAwaitsFrom (c :: before) (x ++ y) = x ++ withAwaitsFrom (x.reverse ++ c :: before) y := by
  induction x generalizing c before with
  | nil => rfl
  | cons d x ih =>
    obtain ⟨hd, hx⟩ := List.forall_mem_cons.mp hx
    have hjoins : joinsName d = true := by rw [joinsName, hd, Bool.true_or]
    rw [List.cons_append, withAwaitsFrom_of_not_needs (needsAwait_of_joins hc before _), ih hx hjoins,
      List.reverse_cons, List.append_assoc]
    rfl

/-- Where nothing is written before a name, the name is read as it was. -/
theorem takeName?_withAwaitsFrom (h : needsAwait before t = false) :
    Text.takeName? (withAwaitsFrom before t) =
      (Text.takeName? t).map fun n => (n.1, withAwaitsFrom (n.1.reverse ++ before) n.2) := by
  cases t with
  | nil => rfl
  | cons c t =>
    rw [withAwaitsFrom_of_not_needs h]
    by_cases hstart : Text.isNameStart c = true
    · obtain ⟨x, y, rfl, hx, hy⟩ := exists_parts_append t
      have hjoins : joinsName c = true := by rw [joinsName, Text.isNamePart_of_isNameStart hstart, Bool.true_or]
      have hname : Text.isName (c :: x) = true := by
        rw [Text.isName, hstart, Bool.true_and]
        exact List.all_eq_true.mpr hx
      -- the character behind the name starts no call
      have hend : Ended (withAwaitsFrom (x.reverse ++ c :: before) y) := by
        cases y with
        | nil => exact .nil
        | cons d y =>
          have hd : Text.isNameStart d = false := Text.isNameStart_eq_false (hy d rfl)
          rw [withAwaitsFrom_of_not_needs (needsAwait_of_not_isNameStart hd _ y)]
          exact .cons (hy d rfl) _
      rw [withAwaitsFrom_parts hx hjoins]
      have hold := Text.takeName?_append_of_isName hname hy
      have hnew := Text.takeName?_append_of_isName hname hend
      rw [List.cons_append] at hold hnew
      rw [hold, hnew, Option.map_some, List.reverse_cons, List.append_assoc]
      rfl
    · rw [Text.takeName?, if_neg hstart, Text.takeName?, if_neg hstart, Option.map_none]

theorem exists_last_of_isName {n : Text} (hn : Text.isName n = true) :
    ∃ c x, n.reverse = c :: x ∧ joinsName c = true := by
  obtain ⟨c, hc, hpart⟩ := exists_head_of_isName hn []
  rw [List.append_nil] at hc
  obtain ⟨x, hx⟩ := List.head?_eq_some_iff.mp hc
  exact ⟨c, x, hx, by rw [joinsName, hpart, Bool.true_or]⟩

theorem dottedTail_withAwaitsFrom (h : needsAwait before t = false) :
    Text.dottedTail (withAwaitsFrom before t) =
      ((Text.dottedTail t).1, withAwaitsFrom ((Text.dottedTail t).1.reverse ++ before) (Text.dottedTail t).2) := by
  have hpoint : ∀ before' r, needsAwait ('.' :: before') r = false := needsAwait_of_joins (by decide)
  fun_induction Text.dottedTail t generalizing before with
  | case1 r n rest hname _ ih =>
    -- behind a point, and behind a name, no await can be missing
    have hread := takeName?_withAwaitsFrom (hpoint before r)
    rw [hname, Option.map_some] at hread
    obtain ⟨d, x, hx, hjoins⟩ := exists_last_of_isName (Text.isName_of_takeName? hname)
    have hrest : needsAwait (n.reverse ++ '.' :: before) rest = false := by
      rw [hx]
      exact needsAwait_of_joins hjoins _ rest
    rw [withAwaitsFrom_of_not_needs h, Text.dottedTail_of_some hread, ih hrest]
    simp
  | case2 r hname =>
    have hread := takeName?_withAwaitsFrom (hpoint before r)
    rw [hname, Option.map_none] at hread
    rw [withAwaitsFrom_of_not_needs h, Text.dottedTail_of_none hread]
    exact Prod.ext rfl (withAwaitsFrom_of_not_needs h).symm
  | case3 t hne =>
    -- what is no point does not become one
    refine Text.dottedTail_of_ne ?_
    cases t with
    | nil =>
      intro hdot
      cases hdot
    | cons c t =>
      rw [withAwaitsFrom_of_not_needs h]
      intro hdot
      obtain rfl := Option.some.inj hdot
      exact hne t rfl

/-- Behind blanks a parenthesis opens where one opened before. -/
theorem opens_withAwaitsFrom (before t : Text) :
    (Text.trimStart (withAwaitsFrom before t)).head? = some '(' ↔ (Text.trimStart t).head? = some '(' := by
  induction t generalizing before with
  | nil => rfl
  | cons c t ih =>
    by_cases hblank : Text.isBlank c = true
    · -- a blank starts no name, so nothing is written before it
      have hstart : Text.isNameStart c = false := by
        have hjoins := joinsName_of_isBlank hblank
        simp only [joinsName, Bool.or_eq_false_iff] at hjoins
        exact Text.isNameStart_eq_false hjoins.1
      have hdrop : ∀ s, Text.trimStart (c :: s) = Text.trimStart s := fun s => List.dropWhile_cons_of_pos hblank
      rw [withAwaitsFrom_of_not_needs (needsAwait_of_not_isNameStart hstart before t), hdrop, hdrop]
      exact ih (c :: before)
    · have hkeep : ∀ s, Text.trimStart (c :: s) = c :: s := fun s => List.dropWhile_cons_of_neg hblank
      cases h : needsAwait before (c :: t) with
      | false => rw [withAwaitsFrom_of_not_needs h, hkeep, hkeep]; rfl
      | true =>
        -- what is written before the name is no parenthesis, and neither is the name
        have hparen : c ≠ '(' := by
          rintro rfl
          rw [needsAwait_of_not_isNameStart (by decide)] at h
          cases h
        have hletter : Text.trimStart ("await " ++ c :: withAwaitsFrom (c :: before) t) =
            "await " ++ c :: withAwaitsFrom (c :: before) t := List.dropWhile_cons_of_neg (by decide)
        rw [withAwaitsFrom_of_needs h, hletter, hkeep]
        simpa using hparen

/-- **A call stays the call it was** when awaits are written behind its start. -/
theorem dottedCall?_withAwaitsFrom (h : needsAwait before t = false) :
    dottedCall? (withAwaitsFrom before t) = dottedCall? t := by
  unfold dottedCall? Text.dottedName?
  rw [takeName?_withAwaitsFrom h]
  cases hname : Text.takeName? t with
  | none => rfl
  | some nr =>
    obtain ⟨n, r⟩ := nr
    obtain ⟨d, x, hx, hjoins⟩ := exists_last_of_isName (Text.isName_of_takeName? hname)
    have hrest : needsAwait (n.reverse ++ before) r = false := by
      rw [hx]
      exact needsAwait_of_joins hjoins _ r
    simp only [Option.map_some, Option.bind_eq_bind, Option.bind_some, dottedTail_withAwaitsFrom hrest,
      opens_withAwaitsFrom]

/-! ### Nothing is written twice -/

/-- A text, and the same text with awaits written into it, as what comes next sees them; both last character first. -/
structure SameBehind (before before' : Text) : Prop where
  head : before'.head? = before.head?
  run : before'.takeWhile Text.isNamePart = before.takeWhile Text.isNamePart
  awaited : isAwaited before = true → isAwaited before' = true

theorem startsWith_takeWhile {f : Char → Bool} {w : Text} (hw : w.all f = true) (t : Text) :
    Text.startsWith (t.takeWhile f) w = Text.startsWith t w := by
  induction w generalizing t with
  | nil => rfl
  | cons a w ih =>
    obtain ⟨ha, hw⟩ := Bool.and_eq_true_iff.mp hw
    cases t with
    | nil => rfl
    | cons c t =>
      by_cases hac : a = c
      · subst hac
        rw [List.takeWhile_cons_of_pos ha]
        unfold Text.startsWith
        rw [Text.after?, Text.after?, if_pos rfl, if_pos rfl]
        exact ih hw t
      · unfold Text.startsWith
        rw [Text.after?, if_neg hac]
        cases hc : f c with
        | true => rw [List.takeWhile_cons_of_pos hc, Text.after?, if_neg hac]
        | false => rw [List.takeWhile_cons_of_neg (by simp [hc])]; rfl

/-- Directly behind a word, only the word decides whether what comes next is awaited. -/
theorem isAwaited_of_run (hc : Text.isBlank c = false)
    (h : (c :: before').takeWhile Text.isNamePart = (c :: before).takeWhile Text.isNamePart) :
    isAwaited (c :: before') = isAwaited (c :: before) := by
  have hkeep : ∀ s, Text.trimStart (c :: s) = c :: s := fun s => List.dropWhile_cons_of_neg (by simp [hc])
  have hword : ∀ w : Text, w.all Text.isNamePart = true →
      Text.startsWith (c :: before') w = Text.startsWith (c :: before) w := by
    intro w hw
    rw [← startsWith_takeWhile hw (c :: before'), h, startsWith_takeWhile hw]
  unfold isAwaited
  simp only [hkeep]
  rw [hword _ (by decide), hword _ (by decide)]

theorem SameBehind.refl (before : Text) : SameBehind before before := ⟨rfl, rfl, id⟩

theorem SameBehind.cons (h : SameBehind before before') (c : Char) : SameBehind (c :: before) (c :: before') := by
  have hrun : (c :: before').takeWhile Text.isNamePart = (c :: before).takeWhile Text.isNamePart := by
    rw [List.takeWhile_cons, List.takeWhile_cons, h.run]
  refine ⟨rfl, hrun, ?_⟩
  by_cases hblank : Text.isBlank c = true
  · have hdrop : ∀ s, isAwaited (c :: s) = isAwaited s := by
      intro s
      unfold isAwaited Text.trimStart
      rw [List.dropWhile_cons_of_pos hblank]
    rw [hdrop, hdrop]
    exact h.awaited
  · rw [isAwaited_of_run (by simpa using hblank) hrun]
    exact id

/-- Behind the first character of a call, an `await` written before it is out of sight. -/
theorem SameBehind.await (hneeds : needsAwait before (c :: t) = true) (before' : Text) :
    SameBehind (c :: before) (c :: (("await " : Text).reverse ++ before')) := by
  -- a call that lacks its await does not go on with a name
  have hfree : before.takeWhile Text.isNamePart = [] := by
    cases before with
    | nil => rfl
    | cons d before =>
      have hd : joinsName d = false := by
        by_contra hd
        rw [needsAwait_of_joins (by simpa using hd)] at hneeds
        cases hneeds
      simp only [joinsName, Bool.or_eq_false_iff] at hd
      exact List.takeWhile_cons_of_neg (by simp [hd.1])
  have hstart : Text.isNameStart c = true := by
    by_contra hstart
    rw [needsAwait_of_not_isNameStart (by simpa using hstart)] at hneeds
    cases hneeds
  have hblank : Text.isBlank c = false := by
    by_contra hblank
    have hjoins := joinsName_of_isBlank (by simpa using hblank)
    rw [joinsName, Text.isNamePart_of_isNameStart hstart, Bool.true_or] at hjoins
    cases hjoins
  -- the blank behind `await` ends the run of name parts
  have hrun : (c :: (("await " : Text).reverse ++ before')).takeWhile Text.isNamePart =
      (c :: before).takeWhile Text.isNamePart := by
    have hspace : (("await " : Text).reverse ++ before').takeWhile Text.isNamePart = [] :=
      List.takeWhile_cons_of_neg (by decide)
    rw [List.takeWhile_cons, List.takeWhile_cons, hspace, hfree]
  refine ⟨rfl, hrun, ?_⟩
  rw [isAwaited_of_run hblank hrun]
  exact id

/-- The word that is written is no call. -/
theorem isAsyncCall_await (u : Text) : isAsyncCall ("await " ++ u) = false := by
  have hname : Text.takeName? (("await" : Text) ++ ' ' :: u) = some (("await" : Text), ' ' :: u) := by
    refine Text.takeName?_append_of_isName (by decide) ?_
    rintro d ⟨⟩
    decide
  have htail : Text.dottedTail (' ' :: u) = ([], ' ' :: u) := Text.dottedTail_of_ne (by simp)
  have hcall : dottedCall? (("await" : Text) ++ ' ' :: u) = none := by
    unfold dottedCall? Text.dottedName?
    rw [hname]
    simp [htail]
  have hword : ("await " ++ u : Text) = "await" ++ ' ' :: u := rfl
  rw [hword, isAsyncCall, hcall]

/-- Nothing is missing at the word that is written, nor directly behind it. -/
theorem lacksAwaitFrom_await (before u : Text) :
    LacksAwaitFrom before ("await " ++ u) ↔ LacksAwaitFrom (("await " : Text).reverse ++ before) u := by
  have hfirst : needsAwait before ("await " ++ u) = false := by
    rw [needsAwait, isAsyncCall_await, Bool.and_false, Bool.false_and]
  have hcut : ("await " ++ u : Text) = 'a' :: 'w' :: 'a' :: 'i' :: 't' :: ' ' :: u := rfl
  rw [hcut] at hfirst
  have hrest : ∀ d, joinsName d = true → ∀ before' s, (needsAwait (d :: before') s = true) = False := by
    intro d hd before' s
    rw [needsAwait_of_joins hd]
    simp
  rw [hcut]
  iterate 6 rw [lacksAwaitFrom_cons]
  rw [hfirst, hrest 'a' (by decide), hrest 'w' (by decide), hrest 'a' (by decide), hrest 'i' (by decide),
    hrest 't' (by decide)]
  simp

/-- **Nothing is missing behind what is written.**  `before` is the text before `t`, and `before'` the same text with
awaits written into it. -/
theorem not_lacksAwaitFrom_withAwaits (h : SameBehind before before') (t : Text) :
    ¬ LacksAwaitFrom before' (withAwaitsFrom before t) := by
  induction t generalizing before before' with
  | nil => exact not_lacksAwaitFrom_nil
  | cons c t ih =>
    cases hneeds : needsAwait before (c :: t) with
    | true =>
      -- the await stands right before the call now
      have hawaited : isAwaited (("await " : Text).reverse ++ before') = true := by
        have hdrop : Text.trimStart (("await " : Text).reverse ++ before') = ("tiawa" : Text) ++ before' := rfl
        have hstarts : Text.startsWith (("tiawa" : Text) ++ before') "tiawa" = true := startsWith_iff.mpr ⟨before', rfl⟩
        simp only [isAwaited, hdrop, hstarts, Bool.true_or]
      have hhere : needsAwait (("await " : Text).reverse ++ before') (c :: withAwaitsFrom (c :: before) t) = false := by
        rw [needsAwait, hawaited, Bool.not_true, Bool.and_false]
      rw [withAwaitsFrom_of_needs hneeds, lacksAwaitFrom_await, lacksAwaitFrom_cons, hhere]
      rintro (hfalse | hrest)
      · cases hfalse
      · exact ih (.await hneeds before') hrest
    | false =>
      -- the call here, if there is one, is the same, and what is before it awaits as before
      have hcall := dottedCall?_withAwaitsFrom hneeds
      rw [withAwaitsFrom_of_not_needs hneeds] at hcall ⊢
      have hhere : needsAwait before' (c :: withAwaitsFrom (c :: before) t) = false := by
        have hasync : isAsyncCall (c :: withAwaitsFrom (c :: before) t) = isAsyncCall (c :: t) := by
          unfold isAsyncCall
          rw [hcall]
        unfold needsAwait at hneeds ⊢
        rw [h.head, hasync]
        cases hold : isAwaited before with
        | true => rw [h.awaited hold, Bool.not_true, Bool.and_false]
        | false =>
          rw [hold, Bool.not_false, Bool.and_true] at hneeds
          rw [hneeds, Bool.false_and]
      rw [lacksAwaitFrom_cons, hhere]
      rintro (hfalse | hrest)
      · cases hfalse
      · exact ih (h.cons c) hrest

/-- **Awaits are inserted completely and once.**  `await ` is written at the places of the calls that may have to be
awaited and are not, and the text is reported as changed exactly when it differs.  A second insertion changes nothing:
in the result, every dotted call that may have to be awaited directly follows `await` or `new`. -/
theorem insertAwaits_stable (t : Text) :
    (∃ ps : List Nat, ps.Pairwise (· < ·) ∧ (∀ p, p ∈ ps ↔ UnawaitedAt t p) ∧
      (insertAwaits t).1 = ps.foldr (insertAt "await ") t) ∧
    ((insertAwaits t).2 = true ↔ (insertAwaits t).1 ≠ t) ∧
    insertAwaits (insertAwaits t).1 = ((insertAwaits t).1, false) ∧
    ∀ p names, CallAt (insertAwaits t).1 p names → MayWait names → EndsAwaiting ((insertAwaits t).1.take p) := by
  have hnone : ¬ LacksAwaitFrom [] (insertAwaits t).1 := not_lacksAwaitFrom_withAwaits (.refl []) t
  refine ⟨?_, ?_, ?_, ?_⟩
  · obtain ⟨ps, hsorted, hmem, hps⟩ := withAwaitsFrom_eq_insertAt [] t
    refine ⟨ps, hsorted, fun p => ?_, hps⟩
    rw [hmem p, List.append_nil, needsAwait_iff_unawaitedAt]
  · have hsame : (insertAwaits t).1 = t ↔ ¬ LacksAwaitFrom [] t := withAwaitsFrom_eq_self_iff
    have hchanged : (insertAwaits t).2 = true ↔ LacksAwaitFrom [] t := insertAwaitsFrom_changed
    rw [hchanged, Ne, hsame, not_not]
  · refine Prod.ext (withAwaitsFrom_eq_self_iff.mpr hnone) ?_
    exact Bool.eq_false_iff.mpr fun hchanged => hnone (insertAwaitsFrom_changed.mp hchanged)
  · intro p names hcall hwait
    by_contra hends
    have hneeds := needsAwait_iff_unawaitedAt.mpr ⟨names, hcall, hwait, hends⟩
    refine hnone ⟨(insertAwaits t).1.take p, (insertAwaits t).1.drop p, (List.take_append_drop p _).symm, ?_⟩
    rwa [List.append_nil]

end Code

end Trellis
