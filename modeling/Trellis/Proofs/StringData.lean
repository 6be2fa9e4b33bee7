import Trellis.Proofs.BareUses

/-!
# String data

Rewriting a statement treats the pieces of its text one by one: the code between the strings, the strings, and in
template strings the interpolations and the text around them.  A quoted string comes out as it is exactly when no call in
it lacks an `await`; a string inside an interpolation must not use a state name bare either (`transform_pieces`).
-/

namespace Trellis.Code

variable {names states : List Text} {b c : Char} {before e r rest t x y : Text}

/-! ### Template strings -/

/-- A template string cut at its interpolations: the text before the first one, then each with the text behind it. -/
structure Template where
  text : Text
  holes : List (Text × Text)

/-- The interpolation at the start of a text, and what follows it. -/
def hole? : Text → Option (Text × Text)
  | '$' :: '\x7b' :: r =>
    match r.dropWhile isPlain with
    | '\x7d' :: rest => some (r.takeWhile isPlain, rest)
    | _ => none
  | _ => none

theorem hole?_eq_some (h : hole? t = some (e, rest)) :
    t = '$' :: '\x7b' :: (e ++ '\x7d' :: rest) ∧ ∀ c ∈ e, isPlain c = true := by
  unfold hole? at h
  split at h
  · next r =>
    split at h
    · next rest' hdrop =>
      obtain ⟨rfl, rfl⟩ := Prod.mk.inj (Option.some.inj h)
      have hsplit := List.takeWhile_append_dropWhile (p := isPlain) (l := r)
      rw [hdrop] at hsplit
      exact ⟨by rw [hsplit], fun c hc => List.mem_takeWhile_imp hc⟩
    · cases h
  · cases h

/-- A run of characters that are no braces ends at the first brace. -/
theorem takeWhile_isPlain (he : ∀ c ∈ e, isPlain c = true) (hb : isPlain b = false) :
    (e ++ b :: rest).takeWhile isPlain = e ∧ (e ++ b :: rest).dropWhile isPlain = b :: rest := by
  rw [List.takeWhile_append_of_pos he, List.dropWhile_append_of_pos he, List.takeWhile_cons_of_neg (by simp [hb]),
    List.dropWhile_cons_of_neg (by simp [hb]), List.append_nil]
  exact ⟨rfl, rfl⟩

theorem hole?_of_plain (he : ∀ c ∈ e, isPlain c = true) (rest : Text) :
    hole? ('$' :: '\x7b' :: (e ++ '\x7d' :: rest)) = some (e, rest) := by
  have hplain : isPlain '\x7d' = false := rfl
  obtain ⟨htake, hdrop⟩ : _ ∧ (e ++ '\x7d' :: rest).dropWhile isPlain = '\x7d' :: rest := takeWhile_isPlain he hplain
  unfold hole?
  simp only [hdrop, htake]

/-- A template string cut at its interpolations.  The braces stay with the text. -/
def template (t : Text) : Template :=
  match t with
  | [] => ⟨[], []⟩
  | c :: r =>
    match h : hole? (c :: r) with
    | some (e, rest) =>
      have := congrArg List.length (hole?_eq_some h).1
      ⟨"$\x7b", (e, '\x7d' :: (template rest).text) :: (template rest).holes⟩
    | none => ⟨c :: (template r).text, (template r).holes⟩
termination_by t.length
decreasing_by
  all_goals simp only [List.length_append, List.length_cons] at *
  all_goals omega

theorem template_of_some (h : hole? t = some (e, rest)) :
    template t = ⟨"$\x7b", (e, '\x7d' :: (template rest).text) :: (template rest).holes⟩ := by
  cases t with
  | nil => cases h
  | cons c r =>
    rw [template]
    split
    · next e' rest' h' =>
      obtain ⟨rfl, rfl⟩ := Prod.mk.inj (Option.some.inj (h.symm.trans h'))
      rfl
    · next h' => rw [h] at h'; cases h'

theorem template_of_none (h : hole? (c :: r) = none) :
    template (c :: r) = ⟨c :: (template r).text, (template r).holes⟩ := by
  rw [template]
  split
  · next h' => rw [h] at h'; cases h'
  · rfl

/-- The text of a template that was cut. -/
def Template.flatten (m : Template) : Text := m.text ++ m.holes.flatMap fun x => x.1 ++ x.2

theorem flatten_template (t : Text) : (template t).flatten = t := by
  fun_induction template t with
  | case1 => rfl
  | case2 c r e rest h hlength ih =>
    rw [(hole?_eq_some h).1]
    show '$' :: '\x7b' :: (e ++ '\x7d' :: (template rest).text ++ (template rest).holes.flatMap _) = _
    rw [List.append_assoc, List.cons_append]
    exact congrArg (fun r => '$' :: '\x7b' :: (e ++ '\x7d' :: r)) ih
  | case3 c r h ih =>
    rw [Template.flatten, List.cons_append]
    exact congrArg (c :: ·) ih

theorem accessTemplate_of_some (h : hole? t = some (e, rest)) :
    accessTemplate names t = '$' :: '\x7b' :: (accessCode names none e ++ '\x7d' :: accessTemplate names rest) := by
  obtain ⟨rfl, he⟩ := hole?_eq_some h
  have hplain : isPlain '\x7d' = false := rfl
  obtain ⟨htake, hdrop⟩ : _ ∧ (e ++ '\x7d' :: rest).dropWhile isPlain = '\x7d' :: rest := takeWhile_isPlain he hplain
  rw [accessTemplate.eq_2]
  split
  · next rest' hrest =>
    obtain rfl : rest = rest' := (List.cons.inj (hdrop.symm.trans hrest)).2
    rw [htake]
    simp
  · next hopen => exact absurd hdrop (hopen rest)

theorem accessTemplate_of_none (h : hole? (c :: r) = none) :
    accessTemplate names (c :: r) = c :: accessTemplate names r := by
  by_cases hopen : ∃ r', c = '$' ∧ r = '\x7b' :: r'
  · obtain ⟨r', rfl, rfl⟩ := hopen
    rw [accessTemplate.eq_2]
    split
    · next rest hrest =>
      simp only [hole?, hrest] at h
      cases h
    · rfl
  · rw [accessTemplate.eq_3]
    intro r' hc hr
    exact hopen ⟨r', hc, hr⟩

/-- Of a template string the interpolations are rewritten, each on its own. -/
theorem accessTemplate_eq (names : List Text) (t : Text) :
    accessTemplate names t =
      (template t).text ++ (template t).holes.flatMap fun x => accessCode names none x.1 ++ x.2 := by
  fun_induction template t with
  | case1 => rw [accessTemplate]; rfl
  | case2 c r e rest h hlength ih =>
    rw [accessTemplate_of_some h, ih]
    simp
  | case3 c r h ih => rw [accessTemplate_of_none h, ih, List.cons_append]

/-! ### Awaits in template strings -/

theorem isPlain_withAwaits (h : ∀ c ∈ t, isPlain c = true) : ∀ c ∈ withAwaits t, isPlain c = true := by
  refine (inserted_awaits [] t).forall_mem ?_ h
  rintro x w rest ⟨rfl, -⟩
  exact List.all_eq_true.mp (by decide)

theorem isBarrier_of_brace (hb : isPlain b = false) : isBarrier b = true := by
  simp only [isPlain, Bool.and_eq_false_iff, decide_eq_false_iff_not, not_not] at hb
  rcases hb with rfl | rfl <;> decide

theorem withAwaitsFrom_open (before t : Text) :
    withAwaitsFrom before ('$' :: '\x7b' :: t) = '$' :: '\x7b' :: withAwaits t := by
  have htail : Text.dottedTail [] = ([], []) := Text.dottedTail_of_ne (by simp)
  have hcall : isAsyncCall ['$'] = false := by
    unfold isAsyncCall dottedCall? Text.dottedName?
    rw [show Text.takeName? ['$'] = some (['$'], []) from rfl]
    simp [htail]
  have hdollar : withAwaitsFrom before ['$'] = ['$'] :=
    withAwaitsFrom_of_not_needs (by rw [needsAwait, hcall, Bool.and_false, Bool.false_and])
  have hbrace : withAwaitsFrom before (['$'] ++ '\x7b' :: t) = withAwaitsFrom before ['$'] ++ '\x7b' :: withAwaits t :=
    withAwaitsFrom_barrier (isBarrier_of_brace rfl)
  rwa [hdollar] at hbrace

/-- Inserting awaits makes no interpolation. -/
theorem hole?_withAwaits (before : Text) (h : hole? (c :: r) = none) :
    hole? (c :: withAwaitsFrom (c :: before) r) = none := by
  by_contra hsome
  obtain ⟨⟨e, rest⟩, hhole⟩ := Option.ne_none_iff_exists'.mp hsome
  obtain ⟨heq, he⟩ := hole?_eq_some hhole
  obtain ⟨rfl, heq⟩ := List.cons.inj heq
  cases r with
  | nil => cases heq
  | cons d r =>
    have hjoins : needsAwait ('$' :: before) (d :: r) = false := rfl
    rw [withAwaitsFrom_of_not_needs hjoins] at heq
    obtain ⟨rfl, heq⟩ := List.cons.inj heq
    have hbehind : withAwaitsFrom ('\x7b' :: '$' :: before) r = withAwaits r :=
      withAwaitsFrom_behind (u := []) (isBarrier_of_brace rfl)
    rw [hbehind] at heq
    -- The first brace of `r` is the first brace of `r` with its awaits.
    have hclose : isPlain '\x7d' = false := rfl
    have hdrop : (withAwaits r).dropWhile isPlain = '\x7d' :: rest := by
      rw [heq]
      exact (takeWhile_isPlain he hclose).2
    have hsplit := List.takeWhile_append_dropWhile (p := isPlain) (l := r)
    have hplain : ∀ c ∈ r.takeWhile isPlain, isPlain c = true := fun c hc => List.mem_takeWhile_imp hc
    cases hrest : r.dropWhile isPlain with
    | nil =>
      rw [hrest, List.append_nil] at hsplit
      have hall := isPlain_withAwaits (hsplit ▸ hplain)
      rw [List.dropWhile_eq_nil_iff.mpr hall] at hdrop
      cases hdrop
    | cons b r' =>
      have hb : isPlain b = false := by
        have := List.head?_dropWhile_not isPlain r
        rw [hrest] at this
        simpa using this
      rw [hrest] at hsplit
      rw [← hsplit, withAwaits_barrier (isBarrier_of_brace hb),
        (takeWhile_isPlain (isPlain_withAwaits hplain) hb).2] at hdrop
      obtain ⟨rfl, -⟩ := List.cons.inj hdrop
      rw [← hsplit, hole?_of_plain hplain] at h
      cases h

theorem template_append {w : Text} (hw : '$' ∉ w) (t : Text) :
    template (w ++ t) = ⟨w ++ (template t).text, (template t).holes⟩ := by
  induction w with
  | nil => rfl
  | cons c w ih =>
    obtain ⟨hc, hw⟩ := not_or.mp (mt List.mem_cons.mpr hw)
    have hnone : hole? (c :: (w ++ t)) = none := by
      cases h : hole? (c :: (w ++ t)) with
      | none => rfl
      | some x => exact absurd (List.cons.inj (hole?_eq_some h).1).1.symm hc
    rw [List.cons_append, template_of_none hnone, ih hw, List.cons_append]

/-- The text before an interpolation ends in its opening brace. -/
theorem text_template (t : Text) :
    (template t).text = t ∨ ∃ x y, (template t).text = x ++ ['\x7b'] ∧ t = x ++ '\x7b' :: y := by
  fun_induction template t with
  | case1 => exact .inl rfl
  | case2 c r e rest h hlength ih => exact .inr ⟨['$'], e ++ '\x7d' :: rest, rfl, (hole?_eq_some h).1⟩
  | case3 c r h ih =>
    rcases ih with heq | ⟨x, y, hx, hy⟩
    · exact .inl (congrArg (c :: ·) heq)
    · exact .inr ⟨c :: x, y, congrArg (c :: ·) hx, congrArg (c :: ·) hy⟩

theorem needsAwait_template (before : Text) (c : Char) (t : Text) :
    needsAwait before (c :: (template t).text) = needsAwait before (c :: t) := by
  have hbrace : isBarrier '\x7b' = true := isBarrier_of_brace rfl
  rcases text_template t with heq | ⟨x, y, hx, hy⟩
  · rw [heq]
  · rw [hx, hy]
    exact (needsAwait_barrier (x := c :: x) hbrace).trans (needsAwait_barrier (x := c :: x) hbrace).symm

/-- **Awaits are inserted piece by piece** in a template string too. -/
theorem template_withAwaits (before t : Text) :
    template (withAwaitsFrom before t) =
      ⟨withAwaitsFrom before (template t).text, (template t).holes.map fun x => (withAwaits x.1, withAwaits x.2)⟩ := by
  fun_induction template t generalizing before with
  | case1 =>
    show template [] = _
    rw [template]
    rfl
  | case2 c r e rest h hlength ih =>
    -- a hole: the awaits inside it come before its closing brace
    obtain ⟨heq, he⟩ := hole?_eq_some h
    have hrest : template (withAwaits rest) = _ := ih []
    have hopen : withAwaitsFrom before "$\x7b" = "$\x7b" := withAwaitsFrom_open before []
    have hclose : withAwaits ('\x7d' :: (template rest).text) = '\x7d' :: withAwaits (template rest).text :=
      withAwaitsFrom_of_barrier (isBarrier_of_brace rfl)
    rw [heq, withAwaitsFrom_open, withAwaits_barrier (isBarrier_of_brace rfl),
      template_of_some (hole?_of_plain (isPlain_withAwaits he) _), hrest, List.map_cons, hopen, hclose]
    rfl
  | case3 c r h ih =>
    have hnone := hole?_withAwaits before h
    have hneeds := needsAwait_template before c r
    cases hcall : needsAwait before (c :: r) with
    | true =>
      -- what is written before the call opens no hole
      have hdollar : '$' ∉ ("await " : Text) := by decide
      rw [withAwaitsFrom_of_needs hcall, withAwaitsFrom_of_needs (hneeds.trans hcall), template_append hdollar,
        template_of_none hnone, ih]
    | false =>
      rw [withAwaitsFrom_of_not_needs hcall, withAwaitsFrom_of_not_needs (hneeds.trans hcall),
        template_of_none hnone, ih]

/-! ### Pieces -/

/-- A piece of a statement's text. -/
inductive Piece where
  /-- Code outside strings. -/
  | code (t : Text)
  /-- A string in single or double quotes, with its quotes. -/
  | quoted (t : Text)
  /-- The text of a template string outside its interpolations. -/
  | template (t : Text)
  /-- The code of an interpolation. -/
  | interpolation (t : Text)
  deriving DecidableEq

def Piece.text : Piece → Text
  | .code t | .quoted t | .template t | .interpolation t => t

/-- The code that is written for a piece of code. -/
def rewriteCode (states : List Text) (t : Text) : Text := accessCode (longestFirst states) none (withAwaits t)

def Piece.rewritten (states : List Text) : Piece → Text
  | .code t | .interpolation t => rewriteCode states t
  | .quoted t | .template t => withAwaits t

def stringPieces (t : Text) : List Piece :=
  if t.head? = some '`' then
    .template (template t).text :: (template t).holes.flatMap fun x => [.interpolation x.1, .template x.2]
  else [.quoted t]

def pieces (t : Text) : List Piece :=
  .code (segments t).code :: (segments t).strings.flatMap fun x => stringPieces x.1 ++ [.code x.2]

theorem text_stringPieces (t : Text) : (stringPieces t).flatMap Piece.text = t := by
  unfold stringPieces
  split
  · conv_rhs => rw [← flatten_template t]
    simp [Template.flatten, Piece.text, List.flatMap_assoc]
  · simp [Piece.text]

theorem text_pieces (t : Text) : (pieces t).flatMap Piece.text = t := by
  conv_rhs => rw [← flatten_segments t]
  simp [pieces, Segments.flatten, Piece.text, List.flatMap_assoc, text_stringPieces]

theorem accessCode_no_names (t : Text) : accessCode [] none t = t := by
  refine accessCode_none_eq_self_iff.mpr ?_
  rintro ⟨x, n, rest, -, hn, -⟩
  cases hn

theorem accessString_no_names (t : Text) : accessString [] t = t := by
  unfold accessString
  split
  · rw [accessTemplate_eq]
    simp only [accessCode_no_names]
    exact flatten_template t
  · rfl

/-- Without any state the text stays as it is, which is what the rule for its pieces says too. -/
theorem accessState_eq (names : List Text) (t : Text) :
    accessState names t = accessCode (longestFirst names) none (segments t).code ++
      (segments t).strings.flatMap fun x =>
        accessString (longestFirst names) x.1 ++ accessCode (longestFirst names) none x.2 := by
  unfold accessState
  split
  · next hempty =>
    rw [List.isEmpty_iff.mp hempty, show longestFirst [] = [] by simp [longestFirst]]
    simp only [accessCode_no_names, accessString_no_names]
    exact (flatten_segments t).symm
  · rfl

theorem rewritten_stringPieces {s : Text} (hs : IsString s) :
    accessString (longestFirst states) (withAwaits s) = (stringPieces s).flatMap (Piece.rewritten states) := by
  have hhead : (withAwaits s).head? = s.head? := by
    cases hs with
    | @intro q b hq _ =>
      unfold withAwaits
      rw [withAwaitsFrom_of_barrier (isBarrier_of_isQuote hq)]
      rfl
  unfold accessString stringPieces
  rw [hhead]
  split
  · have htemplate : template (withAwaits s) = _ := template_withAwaits [] s
    rw [accessTemplate_eq, htemplate]
    simp [Piece.rewritten, rewriteCode, withAwaits, List.flatMap_map, List.flatMap_assoc]
  · simp [Piece.rewritten]

/-- **Rewriting works piece by piece.** -/
theorem rewritten_pieces (states : List Text) (t : Text) :
    (transform states t).1 = (pieces t).flatMap (Piece.rewritten states) := by
  have hstrings : ∀ x ∈ (segments t).strings,
      accessString (longestFirst states) (withAwaits x.1) ++ accessCode (longestFirst states) none (withAwaits x.2) =
        (stringPieces x.1 ++ [Piece.code x.2]).flatMap (Piece.rewritten states) := by
    intro x hx
    rw [rewritten_stringPieces (isString_segments t x hx)]
    simp [Piece.rewritten, rewriteCode]
  show accessState states (withAwaits t) = _
  rw [accessState_eq, segments_withAwaits]
  unfold Segments.map pieces
  simp only [List.flatMap_map, List.flatMap_cons, List.flatMap_assoc]
  rw [List.flatMap_congr hstrings]
  rfl

/-! ### Which strings are kept -/

theorem mem_longestFirst {n : Text} : n ∈ longestFirst names ↔ n ∈ names := List.mem_mergeSort

theorem used_longestFirst : UsedFrom (longestFirst names) before t ↔ UsedFrom names before t := by
  simp only [UsedFrom, mem_longestFirst]

/-- What is written for a piece of code: awaits where calls lack them, and `.value` behind bare uses in the result. -/
theorem inserted_rewriteCode (states : List Text) (t : Text) :
    Inserted AwaitPlace [] t (withAwaits t) ∧ Inserted (ValuePlace states) [] (withAwaits t) (rewriteCode states t) := by
  refine ⟨inserted_awaits [] t, (inserted_values (longestFirst states) [] (withAwaits t)).mono ?_⟩
  rintro x w rest ⟨hw, ⟨n, hn, hx⟩, hbare⟩
  exact ⟨hw, ⟨n, mem_longestFirst.mp hn, hx⟩, hbare⟩

/-- Code stays as it is exactly when no call lacks its `await` and no state name is used bare. -/
theorem rewriteCode_eq_self_iff : rewriteCode states t = t ↔ ¬ LacksAwait t ∧ ¬ Used states t := by
  obtain ⟨hawaits, hvalues⟩ := inserted_rewriteCode states t
  have hself : withAwaits t = t ↔ ¬ LacksAwait t := withAwaitsFrom_eq_self_iff
  have hunused : accessCode (longestFirst states) none t = t ↔ ¬ Used states t := by
    rw [accessCode_none_eq_self_iff, Used, used_longestFirst]
    rfl
  rw [← hself, ← hunused]
  constructor
  · intro heq
    have hle := hvalues.length_le
    rw [heq] at hle
    have hkept := hawaits.eq_of_length_le hle
    refine ⟨hkept, ?_⟩
    rw [rewriteCode, hkept] at heq
    exact heq
  · rintro ⟨hkept, hused⟩
    rw [rewriteCode, hkept, hused]

/-- Names that hold no quote are looked for between the quotes. -/
theorem splits_rewriteCode (hnames : ∀ n ∈ states, n ≠ [] ∧ n.any isQuote = false) :
    SplitsAtQuotes (rewriteCode states) := by
  have hbarrier : ∀ {q : Char} (x y : Text), isQuote q = true →
      accessCode (longestFirst states) none (x ++ q :: y) =
        accessCode (longestFirst states) none x ++ q :: accessCode (longestFirst states) none y := by
    intro q x y hq
    obtain ⟨hpart, hdot, -⟩ := isBarrier_iff.mp (isBarrier_of_isQuote hq)
    refine accessCode_barrier hpart hdot (fun n hn => ?_) none x y
    obtain ⟨hne, hquote⟩ := hnames n (mem_longestFirst.mp hn)
    exact ⟨hne, fun hmem => List.any_eq_false.mp hquote q hmem hq⟩
  constructor
  · refine rewriteCode_eq_self_iff.mpr ⟨not_lacksAwaitFrom_nil, ?_⟩
    rintro ⟨x, n, rest, hxy, hn, -⟩
    obtain ⟨-, hnil⟩ := List.append_eq_nil_iff.mp hxy.symm
    exact (hnames n hn).1 (List.append_eq_nil_iff.mp hnil).1
  · intro q x y hq
    rw [rewriteCode, withAwaits_barrier (isBarrier_of_isQuote hq), hbarrier _ _ hq]
    rfl

/-- **Which string data is kept.**  The pieces of a text make it up, and what is written for a statement is made up of
what is written for its pieces.  A quoted string is kept exactly when no call in it lacks an `await`.  An interpolation
counts as code, strings and all: when the state names hold no quotes it is written string by string, and a string in it
is kept exactly when, besides, no state name is used bare in it.  Nothing else changes: a piece gains `await` where a
call lacks it, and then `.value` behind bare uses. -/
theorem transform_pieces (states : List Text) (t : Text) :
    (pieces t).flatMap Piece.text = t ∧
    (transform states t).1 = (pieces t).flatMap (Piece.rewritten states) ∧
    (∀ s, .quoted s ∈ pieces t → (Piece.rewritten states (.quoted s) = s ↔ ¬ LacksAwait s)) ∧
    ((∀ n ∈ states, n ≠ [] ∧ n.any isQuote = false) → ∀ e, .interpolation e ∈ pieces t →
      Piece.rewritten states (.interpolation e) = ((segments e).map (rewriteCode states)).flatten ∧
        ∀ x ∈ (segments e).strings, rewriteCode states x.1 = x.1 ↔ ¬ LacksAwait x.1 ∧ ¬ Used states x.1) ∧
    ∀ p ∈ pieces t, ∃ u, Inserted AwaitPlace [] p.text u ∧ Inserted (ValuePlace states) [] u (p.rewritten states) := by
  refine ⟨text_pieces t, rewritten_pieces states t, fun s _ => withAwaitsFrom_eq_self_iff, fun hnames e _ => ?_, ?_⟩
  · refine ⟨?_, fun x _ => rewriteCode_eq_self_iff⟩
    rw [← (splits_rewriteCode hnames).flatten _ (isString_segments e), flatten_segments]
    rfl
  · intro p _
    refine ⟨withAwaits p.text, inserted_awaits [] p.text, ?_⟩
    cases p with
    | code t => exact (inserted_rewriteCode states t).2
    | interpolation t => exact (inserted_rewriteCode states t).2
    | quoted t => exact .refl [] _
    | template t => exact .refl [] _

/-- A quoted string, and a string inside an interpolation that uses a state. -/
theorem transform_pieces_greeting :
    Piece.quoted "'hi'" ∈ pieces "say('hi', `$\x7bcount + ': a.b'\x7d`)" ∧
      Piece.interpolation "count + ': a.b'" ∈ pieces "say('hi', `$\x7bcount + ': a.b'\x7d`)" ∧
      (("': a.b'", []) : Text × Text) ∈ (segments "count + ': a.b'").strings ∧
      ¬ LacksAwait "'hi'" ∧ ¬ LacksAwait "': a.b'" ∧ ¬ Used ["count"] "': a.b'" := by
  have hquoted : Piece.quoted "'hi'" ∈ pieces "say('hi', `$\x7bcount + ': a.b'\x7d`)" := by decide +kernel
  have hhole : Piece.interpolation "count + ': a.b'" ∈ pieces "say('hi', `$\x7bcount + ': a.b'\x7d`)" := by
    decide +kernel
  have hstring : (("': a.b'", []) : Text × Text) ∈ (segments "count + ': a.b'").strings := by decide +kernel
  have hnames : ∀ n ∈ (["count"] : List Text), n ≠ [] ∧ n.any isQuote = false := by decide +kernel
  have hsame : rewriteCode ["count"] "': a.b'" = "': a.b'" := by decide +kernel
  obtain ⟨-, -, htop, hinner, -⟩ := transform_pieces ["count"] "say('hi', `$\x7bcount + ': a.b'\x7d`)"
  have hkept := (htop _ hquoted).mp (by decide +kernel)
  exact ⟨hquoted, hhole, hstring, hkept, ((hinner hnames _ hhole).2 _ hstring).mp hsame⟩

/-- A call named in a string gains an `await`, and a state named in a string of an interpolation gains `.value`. -/
theorem quoted_call_awaited :
    Piece.quoted "\"see a.b()\"" ∈ pieces "log(\"see a.b()\")" ∧
      (transform [] "log(\"see a.b()\")").1 = "log(\"see await a.b()\")" ∧
      Piece.interpolation "'count'" ∈ pieces "log(`$\x7b'count'\x7d`)" ∧
      (transform ["count"] "log(`$\x7b'count'\x7d`)").1 = "log(`$\x7b'count.value'\x7d`)" := by
  decide +kernel

end Trellis.Code
