import Trellis.Proofs.NameRuns

/-!
# Where `.value` is written

`.value` is written behind certain characters of a text and nowhere else (`writeBehind`).  In a piece of code these are
the places behind the bare uses of names (`accessCode_eq_writeBehind`).  The pieces of a text are fenced by quotes and
braces, so that a use is bare in its piece exactly when it is bare in the whole text (`exists_places`).

A use is bare in the sense of the language when it is a whole identifier, no member and without a member `.value`
(`BareUse`).  Two of these uses are overlooked: behind the points of a spread, and before a member whose name goes on
behind `.value` with a dollar sign (`accessState_uses`).
-/

namespace Trellis.Code

variable {names : List Text} {a before n rest s t v w x y : Text} {c : Char} {k : Nat} {p : Nat → Bool}

/-! ### Writing behind characters -/

/-- `w` is written behind characters of a text: behind the `i`-th one, counted from one, where `p i` holds.  The text
stands behind `k` others. -/
def writeBehind (w : Text) (p : Nat → Bool) : (k : Nat) → Text → Text
  | _, [] => []
  | k, c :: t => c :: ((if p (k + 1) then w else []) ++ writeBehind w p (k + 1) t)

theorem writeBehind_append (w : Text) (p : Nat → Bool) (k : Nat) (s t : Text) :
    writeBehind w p k (s ++ t) = writeBehind w p k s ++ writeBehind w p (k + s.length) t := by
  induction s generalizing k with
  | nil => rfl
  | cons c s ih =>
    have hk : k + (s.length + 1) = k + 1 + s.length := by omega
    rw [List.cons_append, writeBehind, writeBehind, ih, List.length_cons, hk, List.cons_append, List.append_assoc]

/-- Where no place is picked the text stays as it is. -/
theorem writeBehind_eq_self (h : ∀ x y, x ≠ [] → t = x ++ y → p (k + x.length) = false) : writeBehind w p k t = t := by
  induction t generalizing k with
  | nil => rfl
  | cons c t ih =>
    have hfirst : p (k + 1) = false := h [c] t (by simp) rfl
    have hrest : writeBehind w p (k + 1) t = t := by
      refine ih fun x y _ hxy => ?_
      have hplace := h (c :: x) y (by simp) (congrArg (c :: ·) hxy)
      rwa [List.length_cons, ← Nat.add_assoc, Nat.add_right_comm] at hplace
    rw [writeBehind, hfirst, hrest]
    rfl

/-- Where only the last place can be picked, something can be written only at the end. -/
theorem writeBehind_eq_append (hne : t ≠ [])
    (h : ∀ x y, x ≠ [] → y ≠ [] → t = x ++ y → p (k + x.length) = false) :
    writeBehind w p k t = t ++ if p (k + t.length) then w else [] := by
  obtain ⟨s, c, rfl⟩ := (List.eq_nil_or_concat' t).resolve_left hne
  have hinit : writeBehind w p k s = s := by
    refine writeBehind_eq_self fun x y hx hxy => h x (y ++ [c]) hx (by simp) ?_
    rw [hxy, List.append_assoc]
  rw [writeBehind_append, hinit, List.length_append, List.append_assoc]
  simp [writeBehind, Nat.add_assoc]

/-! ### Places in a piece of code -/

theorem IsRun.reverse (hw : IsRun w) : IsRun w.reverse :=
  ⟨by simpa using hw.ne_nil, fun c hc => hw.parts c (List.mem_reverse.mp hc)⟩

theorem startsBare_iff {previous : Option Char} :
    startsBare previous = true ↔ ∀ c ∈ previous, Text.isNamePart c = false ∧ c ≠ '.' := by
  cases previous with
  | none => simp [startsBare]
  | some c => simp [startsBare]

section Places

variable (hnames : ∀ n ∈ names, Text.isName n = true)

include hnames

/-- Behind a run `.value` has a place exactly when the run is a use. -/
theorem valuePlace_run (hw : IsRun w) (hy : Ended y) (hbefore : Ended before) :
    ValuePlace names (w.reverse ++ before) ".value" y ↔
      startsBare before.head? = true ∧ w ∈ names ∧ hasValue y = false := by
  constructor
  · rintro ⟨-, ⟨n, hn, a, ha, hstart⟩, hend⟩
    have hended : Ended a := fun c hc => (startsBare_iff.mp hstart c hc).1
    obtain ⟨hrun, rfl⟩ := hw.reverse.unique (isRun_of_isName (hnames n hn)).reverse hbefore hended ha
    obtain rfl := List.reverse_injective hrun
    exact ⟨hstart, hn, (endsBare_iff.mp hend).2⟩
  · rintro ⟨hstart, hmem, hvalue⟩
    exact ⟨rfl, ⟨w, hmem, before, rfl, hstart⟩, endsBare_iff.mpr ⟨hy, hvalue⟩⟩

/-- Behind another character than that of a name `.value` has no place. -/
theorem not_valuePlace_other (hc : Text.isNamePart c = false) : ¬ ValuePlace names (c :: before) ".value" y := by
  rintro ⟨-, ⟨n, hn, a, ha, -⟩, -⟩
  obtain ⟨hne, hparts⟩ := (isRun_of_isName (hnames n hn)).reverse
  obtain ⟨d, r, hr⟩ := List.exists_cons_of_ne_nil hne
  rw [hr] at ha hparts
  have hd := hparts d List.mem_cons_self
  rw [← (List.cons.inj ha).1, hc] at hd
  cases hd

/-- **In a piece of code `.value` is written exactly at its places.**  `before` is the code before the text, last character
first. -/
theorem accessCode_eq_writeBehind (before t : Text) (k : Nat)
    (hfresh : ∀ c ∈ before.head?, Text.isNamePart c = true → Ended t)
    (hp : ∀ x y, x ≠ [] → t = x ++ y →
      (p (k + x.length) = true ↔ ValuePlace names (x.reverse ++ before) ".value" y)) :
    accessCode names before.head? t = writeBehind ".value" p k t := by
  generalize hhead : before.head? = previous at hfresh ⊢
  revert before k
  refine run_induction ?_ ?_ ?_ previous t hfresh
  · intro previous before k _ _
    rw [accessCode_nil hnames, writeBehind]
  · -- behind a character that is no part of a name nothing is written
    intro previous c t hc ih before k hp _
    have hplace : p (k + 1) = true ↔ ValuePlace names (c :: before) ".value" t := hp [c] t (by simp) rfl
    have hnone : p (k + 1) = false := by
      rw [← Bool.not_eq_true, hplace]
      exact not_valuePlace_other hnames hc
    have hrest : accessCode names (some c) t = writeBehind ".value" p (k + 1) t := by
      refine ih (c :: before) (k + 1) (fun x y _ hxy => ?_) rfl
      have hplace := hp (c :: x) y (by simp) (congrArg (c :: ·) hxy)
      rwa [List.length_cons, ← Nat.add_assoc, Nat.add_right_comm, List.reverse_cons, List.append_assoc] at hplace
    rw [accessCode_other hnames hc, writeBehind, hnone, hrest]
    rfl
  · intro previous w y hw hy hbefore ih before k hp hhead
    subst hhead
    -- inside a run no use ends
    have hinside : ∀ x z, x ≠ [] → z ≠ [] → w = x ++ z → p (k + x.length) = false := by
      rintro x z hx hz rfl
      rw [← Bool.not_eq_true, hp x (z ++ y) hx (List.append_assoc ..)]
      rintro ⟨-, -, hend⟩
      obtain ⟨d, z, rfl⟩ := List.exists_cons_of_ne_nil hz
      have hd := (endsBare_iff.mp hend).1 d rfl
      rw [hw.parts d (by simp)] at hd
      cases hd
    have hplace := (hp w y hw.ne_nil rfl).trans (valuePlace_run hnames hw hy hbefore)
    have hrest : accessCode names w.getLast? y = writeBehind ".value" p (k + w.length) y := by
      refine ih (w.reverse ++ before) (k + w.length) (fun x z _ hxz => ?_) ?_
      · have hplace := hp (w ++ x) z (by simp [hw.ne_nil]) (by rw [hxz, List.append_assoc])
        rwa [List.length_append, ← Nat.add_assoc, List.reverse_append, List.append_assoc] at hplace
      · rw [List.head?_append_of_ne_nil _ hw.reverse.ne_nil, List.head?_reverse]
    rw [writeBehind_append, writeBehind_eq_append hw.ne_nil hinside, ← hrest]
    -- at the end of a run one ends if the run is a name that is used bare
    by_cases huse : startsBare before.head? = true ∧ w ∈ names ∧ hasValue y = false
    · rw [if_pos (hplace.mpr huse), accessCode_use hnames hw hy huse.1 huse.2.1 huse.2.2]
    · rw [if_neg (mt hplace.mp huse), accessCode_pass hnames hw hy huse, List.append_nil]

end Places

/-! ### Pieces -/

/-- The piece is code: it stands outside strings, or in an interpolation. -/
def Piece.isCode : Piece → Bool
  | .code _ | .interpolation _ => true
  | .quoted _ | .template _ => false

def piecesText (ps : List Piece) : Text := ps.flatMap Piece.text

@[simp]
theorem piecesText_cons (q : Piece) (qs : List Piece) : piecesText (q :: qs) = q.text ++ piecesText qs := rfl

@[simp]
theorem piecesText_append (ps qs : List Piece) : piecesText (ps ++ qs) = piecesText ps ++ piecesText qs :=
  List.flatMap_append

/-- For each character of the pieces, whether it is code. -/
def piecesMarks (ps : List Piece) : List Bool := ps.flatMap fun p => List.replicate p.text.length p.isCode

/-- For each character of a text, whether it is code. -/
def codeMarks (t : Text) : List Bool := piecesMarks (pieces t)

/-- What is written for a piece when states are accessed. -/
def Piece.accessed (names : List Text) (p : Piece) : Text := if p.isCode then accessCode names none p.text else p.text

theorem accessString_pieces (names : List Text) (s : Text) :
    accessString names s = (stringPieces s).flatMap (Piece.accessed names) := by
  unfold accessString stringPieces
  split
  · rw [accessTemplate_eq]
    simp [Piece.accessed, Piece.isCode, Piece.text, List.flatMap_assoc]
  · simp [Piece.accessed, Piece.isCode, Piece.text]

/-- State access works piece by piece. -/
theorem accessState_pieces (names : List Text) (t : Text) :
    accessState names t = (pieces t).flatMap (Piece.accessed (longestFirst names)) := by
  rw [accessState_eq]
  simp [pieces, accessString_pieces, Piece.accessed, Piece.isCode, Piece.text, List.flatMap_assoc]

/-! ### Fences -/

/-- The character, if there is one, is a barrier: no name and no member reaches over it. -/
def IsFence (c : Option Char) : Prop := ∀ b ∈ c, isBarrier b = true

/-- The pieces of code are fenced, where `before` and `rest` are the texts around the pieces. -/
def Fenced (rest : Text) : (before : Text) → List Piece → Prop
  | _, [] => True
  | before, q :: qs =>
    (q.isCode = true → IsFence before.getLast? ∧ IsFence (piecesText qs ++ rest).head?) ∧
      Fenced rest (before ++ q.text) qs

theorem Fenced.text {q : Piece} {qs : List Piece} (hq : q.isCode = false) (h : Fenced rest (before ++ q.text) qs) :
    Fenced rest before (q :: qs) :=
  ⟨fun hcode => absurd (hq.symm.trans hcode) Bool.false_ne_true, h⟩

theorem Fenced.code {q : Piece} {qs : List Piece} (hbefore : IsFence before.getLast?)
    (hrest : IsFence (piecesText qs ++ rest).head?) (h : Fenced rest (before ++ q.text) qs) :
    Fenced rest before (q :: qs) :=
  ⟨fun _ => ⟨hbefore, hrest⟩, h⟩

theorem Fenced.append {ps qs : List Piece} (hps : Fenced (piecesText qs ++ rest) before ps)
    (hqs : Fenced rest (before ++ piecesText ps) qs) : Fenced rest before (ps ++ qs) := by
  induction ps generalizing before with
  | nil => simpa [piecesText] using hqs
  | cons q ps ih =>
    obtain ⟨hq, hps⟩ := hps
    rw [piecesText_cons, ← List.append_assoc] at hqs
    rw [List.cons_append]
    refine ⟨fun hcode => ?_, ih hps hqs⟩
    rw [piecesText_append, List.append_assoc]
    exact hq hcode

/-- The interpolations of a template string are fenced by their braces. -/
theorem fenced_template (before rest t : Text) :
    Fenced rest before
      (.template (template t).text :: (template t).holes.flatMap fun x => [.interpolation x.1, .template x.2]) := by
  fun_induction template t generalizing before with
  | case1 => exact .text rfl trivial
  | case2 c r e rest' h hlength ih =>
    have hopen : IsFence (before ++ "$\x7b").getLast? := by
      intro b hb
      obtain rfl : b = '\x7b' := by simpa [eq_comm] using hb
      exact isBarrier_of_brace rfl
    have hclose : ∀ u : Text, IsFence ('\x7d' :: u).head? := by
      rintro u b ⟨⟩
      exact isBarrier_of_brace rfl
    obtain ⟨-, hrest⟩ := ih (before ++ "$\x7b" ++ e ++ ['\x7d'])
    rw [List.flatMap_cons, List.cons_append, List.cons_append, List.nil_append]
    refine .text rfl (.code hopen (hclose _) (.text rfl ?_))
    simpa [Piece.text] using hrest
  | case3 c r h ih =>
    obtain ⟨-, hrest⟩ := ih (before ++ [c])
    refine .text rfl ?_
    simpa [Piece.text] using hrest

theorem fenced_string (before rest s : Text) : Fenced rest before (stringPieces s) := by
  unfold stringPieces
  split
  · exact fenced_template before rest s
  · exact .text rfl trivial

theorem isFence_none : IsFence none := nofun

theorem isFence_quote (hs : IsString s) (t : Text) : IsFence (s ++ t).head? ∧ IsFence (t ++ s).getLast? := by
  cases hs with
  | @intro q b hq _ =>
    constructor
    · rintro d ⟨⟩
      exact isBarrier_of_isQuote hq
    · rw [← List.cons_append, ← List.append_assoc, List.getLast?_concat]
      rintro d ⟨⟩
      exact isBarrier_of_isQuote hq

/-- The pieces of strings and of the code behind each. -/
def stringsPieces (strings : List (Text × Text)) : List Piece :=
  strings.flatMap fun x => stringPieces x.1 ++ [.code x.2]

theorem piecesText_stringPieces (s : Text) : piecesText (stringPieces s) = s := text_stringPieces s

theorem stringsPieces_cons (x : Text × Text) (strings : List (Text × Text)) :
    stringsPieces (x :: strings) = stringPieces x.1 ++ (.code x.2 :: stringsPieces strings) := by
  rw [stringsPieces, List.flatMap_cons, List.append_assoc]
  rfl

theorem isFence_strings {strings : List (Text × Text)} (h : ∀ x ∈ strings, IsString x.1) :
    IsFence (piecesText (stringsPieces strings) ++ []).head? := by
  cases strings with
  | nil => exact isFence_none
  | cons x strings =>
    rw [stringsPieces_cons, piecesText_append, piecesText_stringPieces, List.append_assoc]
    exact (isFence_quote (h x List.mem_cons_self) _).1

/-- The code between strings is fenced by their quotes. -/
theorem fenced_strings {strings : List (Text × Text)} (h : ∀ x ∈ strings, IsString x.1) (before : Text) :
    Fenced [] before (stringsPieces strings) := by
  induction strings generalizing before with
  | nil => trivial
  | cons x strings ih =>
    obtain ⟨hx, h⟩ := List.forall_mem_cons.mp h
    rw [stringsPieces_cons]
    refine (fenced_string before _ x.1).append (.code ?_ (isFence_strings h) (ih h _))
    rw [piecesText_stringPieces]
    exact (isFence_quote hx before).2

/-- **The code of a text is fenced.** -/
theorem fenced_pieces (t : Text) : Fenced [] [] (pieces t) := by
  have hstrings := isString_segments t
  exact .code isFence_none (isFence_strings hstrings) (fenced_strings hstrings _)

/-! ### Places in a text -/

/-- A bare use of a name ends between `x` and `y`, and all of it is code. -/
def UsePlace (names : List Text) (marks : List Bool) (x y : Text) : Prop :=
  ∃ a, ∃ n ∈ names, x = a ++ n ∧ (∀ i, a.length ≤ i → i < x.length → marks[i]? = some true) ∧
    startsBare a.getLast? = true ∧ endsBare y = true

/-- The marks of a piece, inside those of a text. -/
theorem getElem?_marks {marks marks' : List Bool} {b : Bool} {i m : Nat} (hle : marks.length ≤ i)
    (hlt : i < marks.length + m) : (marks ++ (List.replicate m b ++ marks'))[i]? = some b := by
  rw [List.getElem?_append_right hle, List.getElem?_append_left (by rw [List.length_replicate]; omega),
    List.getElem?_replicate, if_pos (by omega)]

theorem startsBare_of_isFence {c : Option Char} (h : IsFence c) : startsBare c = true := by
  refine startsBare_iff.mpr fun b hb => ?_
  obtain ⟨hpart, hdot, -⟩ := isBarrier_iff.mp (h b hb)
  exact ⟨hpart, hdot⟩

/-- A name at the start of a fenced text starts as it does alone. -/
theorem startsBare_append (h : IsFence before.getLast?) (u : Text) :
    startsBare (before ++ u).getLast? = startsBare u.getLast? := by
  by_cases hu : u = []
  · rw [hu, List.append_nil, startsBare_of_isFence h]
    rfl
  · rw [List.getLast?_append_of_ne_nil _ hu]

theorem endsBare_of_isFence (h : IsFence rest.head?) (y : Text) : endsBare (y ++ rest) = endsBare y := by
  cases rest with
  | nil => rw [List.append_nil]
  | cons b rest =>
    obtain ⟨hpart, hdot, -⟩ := isBarrier_iff.mp (h b rfl)
    exact endsBare_barrier hpart hdot

section Text

variable (hnames : ∀ n ∈ names, Text.isName n = true) {marks marks' : List Bool}

include hnames

/-- Outside code no use ends. -/
theorem not_usePlace (hmarks : marks.length = before.length) (hx : x ≠ []) :
    ¬ UsePlace names (marks ++ (List.replicate (x ++ y).length false ++ marks')) (before ++ x) rest := by
  rintro ⟨a, n, hn, hsplit, hcode, -⟩
  have hlen := congrArg List.length hsplit
  have hx := List.length_pos_iff.mpr hx
  have hn := List.length_pos_iff.mpr (isRun_of_isName (hnames n hn)).ne_nil
  simp only [List.length_append] at hlen
  have hlast := hcode (before.length + x.length - 1) (by omega) (by rw [List.length_append]; omega)
  rw [getElem?_marks (by omega) (by rw [List.length_append]; omega)] at hlast
  cases hlast

/-- **A use is bare in its piece exactly when it is bare in the text**, where the piece is fenced. -/
theorem usePlace_iff (hmarks : marks.length = before.length) (hbefore : IsFence before.getLast?)
    (hrest : IsFence rest.head?) :
    UsePlace names (marks ++ (List.replicate (x ++ y).length true ++ marks')) (before ++ x) (y ++ rest) ↔
      ValuePlace names x.reverse ".value" y := by
  constructor
  · rintro ⟨a, n, hn, hsplit, -, hstart, hend⟩
    rw [endsBare_of_isFence hrest] at hend
    rcases List.append_eq_append_iff.mp hsplit with ⟨u, rfl, rfl⟩ | ⟨u, rfl, rfl⟩
    · rw [startsBare_append hbefore, ← List.head?_reverse] at hstart
      exact ⟨rfl, ⟨n, hn, u.reverse, List.reverse_append, hstart⟩, hend⟩
    · -- The name does not reach over the fence.
      rcases List.eq_nil_or_concat' u with rfl | ⟨u, b, rfl⟩
      · exact ⟨rfl, ⟨x, hn, [], by simp, rfl⟩, hend⟩
      · have hb := (isRun_of_isName (hnames _ hn)).parts b (by simp)
        rw [← List.append_assoc, List.getLast?_concat] at hbefore
        rw [(isBarrier_iff.mp (hbefore b rfl)).1] at hb
        cases hb
  · rintro ⟨-, ⟨n, hn, u, hu, hstart⟩, hend⟩
    obtain rfl : x = u.reverse ++ n := by
      rw [← List.reverse_reverse x, hu, List.reverse_append, List.reverse_reverse]
    refine ⟨before ++ u.reverse, n, hn, (List.append_assoc ..).symm, fun i hle hlt => ?_, ?_, ?_⟩
    · simp only [List.length_append] at hle hlt
      exact getElem?_marks (by omega) (by simp only [List.length_append]; omega)
    · rwa [startsBare_append hbefore, List.getLast?_reverse]
    · rwa [endsBare_of_isFence hrest]

/-- What is written for pieces is written at the places where uses end. -/
theorem accessed_eq_writeBehind {qs : List Piece} (hmarks : marks.length = before.length) (hfenced : Fenced [] before qs)
    (hp : ∀ x y, x ≠ [] → piecesText qs = x ++ y →
      (p (before.length + x.length) = true ↔ UsePlace names (marks ++ piecesMarks qs) (before ++ x) y)) :
    qs.flatMap (Piece.accessed names) = writeBehind ".value" p before.length (piecesText qs) := by
  induction qs generalizing before marks with
  | nil => rfl
  | cons q qs ih =>
    obtain ⟨hq, hfenced⟩ := hfenced
    rw [List.append_nil] at hq
    have hcons : piecesMarks (q :: qs) = List.replicate q.text.length q.isCode ++ piecesMarks qs := rfl
    rw [piecesText_cons, hcons] at hp
    have hrest : qs.flatMap (Piece.accessed names) =
        writeBehind ".value" p (before.length + q.text.length) (piecesText qs) := by
      have hlength : (marks ++ List.replicate q.text.length q.isCode).length = (before ++ q.text).length := by
        rw [List.length_append, List.length_append, hmarks, List.length_replicate]
      rw [← List.length_append]
      refine ih hlength hfenced fun x y hx hxy => ?_
      rw [List.append_assoc, List.append_assoc, List.length_append, Nat.add_assoc, ← List.length_append]
      exact hp (q.text ++ x) y (by simp [hx]) (by rw [hxy, List.append_assoc])
    have hplace : ∀ x y, x ≠ [] → q.text = x ++ y → (p (before.length + x.length) = true ↔
        UsePlace names (marks ++ (List.replicate (x ++ y).length q.isCode ++ piecesMarks qs)) (before ++ x)
          (y ++ piecesText qs)) := by
      intro x y hx hxy
      rw [← hxy]
      exact hp x (y ++ piecesText qs) hx (by rw [hxy, List.append_assoc])
    rw [List.flatMap_cons, piecesText_cons, writeBehind_append, hrest, List.append_left_inj]
    unfold Piece.accessed
    by_cases hcode : q.isCode = true
    · -- a piece of code is fenced, so a use ends in it exactly when it does in the piece alone
      obtain ⟨hbefore, hbehind⟩ := hq hcode
      rw [if_pos hcode]
      refine accessCode_eq_writeBehind hnames [] q.text before.length (by simp) fun x y hx hxy => ?_
      rw [hplace x y hx hxy, hcode, usePlace_iff hnames hmarks hbefore hbehind, List.append_nil]
    · -- elsewhere nothing is in code, and nothing is written
      rw [if_neg hcode]
      refine (writeBehind_eq_self fun x y hx hxy => ?_).symm
      rw [← Bool.not_eq_true, hplace x y hx hxy, eq_false_of_ne_true hcode]
      exact not_usePlace hnames hmarks hx

end Text

theorem usePlace_longestFirst {marks : List Bool} :
    UsePlace (longestFirst names) marks x y ↔ UsePlace names marks x y := by
  simp only [UsePlace, mem_longestFirst]

/-- **`.value` is written exactly where bare uses end** in the code of a text. -/
theorem exists_places (hnames : ∀ n ∈ names, Text.isName n = true) (t : Text) :
    ∃ p : Nat → Bool, accessState names t = writeBehind ".value" p 0 t ∧
      ∀ x y, t = x ++ y → (p x.length = true ↔ UsePlace names (codeMarks t) x y) := by
  classical
  let p (i : Nat) : Bool := decide (∃ x y, t = x ++ y ∧ x.length = i ∧ UsePlace names (codeMarks t) x y)
  -- a place is told by the length of what is before it
  have hp : ∀ x y, t = x ++ y → (p x.length = true ↔ UsePlace names (codeMarks t) x y) := by
    intro x y hxy
    rw [decide_eq_true_eq]
    constructor
    · rintro ⟨x', y', hxy', hlen, hplace⟩
      obtain ⟨rfl, rfl⟩ := List.append_inj (hxy'.symm.trans hxy) hlen
      exact hplace
    · intro hplace
      exact ⟨x, y, hxy, rfl, hplace⟩
  refine ⟨p, ?_, hp⟩
  have htext : piecesText (pieces t) = t := text_pieces t
  have hlength : ([] : List Bool).length = ([] : Text).length := rfl
  rw [accessState_pieces]
  conv_rhs => rw [← htext]
  refine accessed_eq_writeBehind (isName_longestFirst hnames) hlength (fenced_pieces t) fun x y _ hxy => ?_
  rw [htext] at hxy
  rw [usePlace_longestFirst, List.length_nil, Nat.zero_add]
  exact hp x y hxy

/-! ### Bare uses -/

/-- The text before ends in the point of a member access; the last point of a spread is none. -/
def EndsInMember (a : Text) : Prop := ("." : Text) <:+ a ∧ ¬ ("..." : Text) <:+ a

/-- The text behind starts with the member `.value`. -/
def StartsWithValue (y : Text) : Prop := ∃ r, y = ".value" ++ r ∧ Ended r

/-- What stands between `a` and `y` is used bare: it is a whole identifier, no member of something, and its member
`.value` is not taken. -/
structure BareUse (a y : Text) : Prop where
  start : ∀ c ∈ a.getLast?, Text.isNamePart c = false
  ended : Ended y
  noMember : ¬ EndsInMember a
  noValue : ¬ StartsWithValue y

/-- A use that is overlooked: it is spread, or its member has a name that goes on behind `.value` with a dollar sign. -/
def Overlooked (a y : Text) : Prop := ("..." : Text) <:+ a ∨ ∃ r, y = ".value$" ++ r

/-- What stands between `a` and `y` is code. -/
def StandsInCode (t a n : Text) : Prop :=
  ∀ i, a.length ≤ i → i < a.length + n.length → (codeMarks t)[i]? = some true

theorem point_suffix_iff : ("." : Text) <:+ a ↔ a.getLast? = some '.' := by
  rw [List.getLast?_eq_some_iff]
  exact ⟨fun ⟨u, hu⟩ => ⟨u, hu.symm⟩, fun ⟨u, hu⟩ => ⟨u, hu.symm⟩⟩

theorem point_of_spread (h : ("..." : Text) <:+ a) : ("." : Text) <:+ a := List.IsSuffix.trans ⟨"..", rfl⟩ h

/-- A name starts bare when no name character and no point stands before it: behind a spread it is overlooked. -/
theorem startsBare_getLast?_iff :
    startsBare a.getLast? = true ↔
      (∀ c ∈ a.getLast?, Text.isNamePart c = false) ∧ ¬ EndsInMember a ∧ ¬ ("..." : Text) <:+ a := by
  rw [startsBare_iff]
  constructor
  · intro h
    have hpoint : ¬ ("." : Text) <:+ a := fun hsuffix => (h '.' (point_suffix_iff.mp hsuffix)).2 rfl
    exact ⟨fun c hc => (h c hc).1, fun hmember => hpoint hmember.1, fun hspread => hpoint (point_of_spread hspread)⟩
  · rintro ⟨hstart, hmember, hspread⟩ c hc
    refine ⟨hstart c hc, ?_⟩
    rintro rfl
    exact hmember ⟨point_suffix_iff.mpr hc, hspread⟩

theorem hasValue_eq_true_iff : hasValue y = true ↔ ∃ r, y = ".value" ++ r ∧ ∀ c ∈ r.head?, Text.isWord c = false := by
  unfold hasValue
  constructor
  · intro h
    split at h
    · next r hafter =>
      refine ⟨r, Text.after?_eq_some_iff.mp hafter, fun c hc => ?_⟩
      rw [Option.mem_def.mp hc] at h
      simpa using h
    · cases h
  · rintro ⟨r, hr, hword⟩
    rw [Text.after?_eq_some_iff.mpr hr]
    cases r with
    | nil => rfl
    | cons c r => simp [hword c rfl]

/-- A member `.value` is taken, or one whose name goes on with a dollar sign. -/
theorem hasValue_iff : hasValue y = true ↔ StartsWithValue y ∨ ∃ r, y = ".value$" ++ r := by
  rw [hasValue_eq_true_iff]
  constructor
  · rintro ⟨r, rfl, hword⟩
    by_cases hended : Ended r
    · exact .inl ⟨r, rfl, hended⟩
    · obtain ⟨c, hc, hpart⟩ : ∃ c ∈ r.head?, Text.isNamePart c = true := by simpa [Ended] using hended
      obtain ⟨r, rfl⟩ := List.head?_eq_some_iff.mp hc
      obtain rfl : c = '$' := by simpa [Text.isNamePart, hword c rfl] using hpart
      exact .inr ⟨r, rfl⟩
  · rintro (⟨r, rfl, hended⟩ | ⟨r, rfl⟩)
    · exact ⟨r, rfl, fun c hc => (Bool.or_eq_false_iff.mp (hended c hc)).1⟩
    · exact ⟨'$' :: r, rfl, by rintro c ⟨⟩; decide⟩

/-- What the rewriting takes for a bare use is one, and none that is overlooked. -/
theorem bare_iff : startsBare a.getLast? = true ∧ endsBare y = true ↔ BareUse a y ∧ ¬ Overlooked a y := by
  rw [startsBare_getLast?_iff, endsBare_iff, ← Bool.not_eq_true, hasValue_iff]
  constructor
  · rintro ⟨⟨hstart, hmember, hspread⟩, hended, hvalue⟩
    exact ⟨⟨hstart, hended, hmember, fun h => hvalue (.inl h)⟩, fun h => h.elim hspread fun h => hvalue (.inr h)⟩
  · rintro ⟨⟨hstart, hended, hmember, hvalue⟩, hoverlooked⟩
    exact ⟨⟨hstart, hmember, fun h => hoverlooked (.inl h)⟩, hended, fun h => h.elim hvalue fun h => hoverlooked (.inr h)⟩

/-- **State access rewrites the bare uses that are not overlooked**, for every text and all identifiers: `.value` is
written behind characters of the text and nowhere else, exactly where a state name ends that stands in code, is used bare,
and is neither spread nor before a member whose name goes on behind `.value` with a dollar sign.  Code is what stands
outside strings, and what stands in an interpolation that has no brace inside. -/
theorem accessState_uses (hnames : ∀ n ∈ names, Text.isName n = true) (t : Text) :
    ∃ p : Nat → Bool, accessState names t = writeBehind ".value" p 0 t ∧
      ∀ x y, t = x ++ y → (p x.length = true ↔
        ∃ a, ∃ n ∈ names, x = a ++ n ∧ StandsInCode t a n ∧ BareUse a y ∧ ¬ Overlooked a y) := by
  obtain ⟨p, hwritten, hp⟩ := exists_places hnames t
  refine ⟨p, hwritten, fun x y hxy => (hp x y hxy).trans ?_⟩
  constructor
  · rintro ⟨a, n, hn, rfl, hcode, hbare⟩
    refine ⟨a, n, hn, rfl, fun i hle hlt => hcode i hle ?_, bare_iff.mp hbare⟩
    rwa [List.length_append]
  · rintro ⟨a, n, hn, rfl, hcode, hbare⟩
    refine ⟨a, n, hn, rfl, fun i hle hlt => hcode i hle ?_, bare_iff.mpr hbare⟩
    rwa [← List.length_append]

/-- A use in an interpolation, and a member of the same name. -/
theorem accessState_uses_template :
    (∀ n ∈ (["count"] : List Text), Text.isName n = true) ∧
      ∃ p : Nat → Bool, accessState ["count"] "`$\x7bcount\x7d` + o.count" =
          writeBehind ".value" p 0 "`$\x7bcount\x7d` + o.count" ∧ p 8 = true ∧ p 20 = false := by
  have hnames : ∀ n ∈ (["count"] : List Text), Text.isName n = true := by decide +kernel
  obtain ⟨p, hwritten, hp⟩ := accessState_uses hnames "`$\x7bcount\x7d` + o.count"
  have hmarks : ∀ i ∈ List.range' 3 5, (codeMarks "`$\x7bcount\x7d` + o.count")[i]? = some true := by decide +kernel
  have huse : p 8 = true := by
    refine (hp "`$\x7bcount" "\x7d` + o.count" rfl).mpr ⟨"`$\x7b", "count", by simp, rfl, ?_, bare_iff.mp ⟨rfl, rfl⟩⟩
    intro i hle hlt
    exact hmarks i (List.mem_range'_1.mpr ⟨hle, hlt⟩)
  have hmember : ¬ p 20 = true := by
    intro hplace
    obtain ⟨a, n, hn, ha, -, hbare⟩ := (hp "`$\x7bcount\x7d` + o.count" [] rfl).mp hplace
    obtain rfl := List.mem_singleton.mp hn
    have ha : "`$\x7bcount\x7d` + o.".toList ++ "count".toList = a ++ "count".toList := ha
    obtain rfl := List.append_cancel_right ha
    exact absurd (bare_iff.mpr hbare).1 (by decide)
  exact ⟨hnames, p, hwritten, huse, by simpa using hmember⟩

/-- A state that is spread is used bare, and is not rewritten; nor is one before a member `value$`. -/
theorem spread_overlooked :
    (BareUse "[..." "]" ∧ StandsInCode "[...items]" "[..." "items" ∧
      accessState ["items"] "[...items]" = "[...items]") ∧
    BareUse [] ".value$" ∧ StandsInCode "items.value$" [] "items" ∧
      accessState ["items"] "items.value$" = "items.value$" := by
  have hspread : ∀ i ∈ List.range' 4 5, (codeMarks "[...items]")[i]? = some true := by decide +kernel
  have hmember : ∀ i ∈ List.range' 0 5, (codeMarks "items.value$")[i]? = some true := by decide +kernel
  -- the dots of a spread are not a point before a member, and `value$` is not `value`
  refine ⟨⟨⟨?_, ?_, ?_, ?_⟩, fun i hle hlt => hspread i (List.mem_range'_1.mpr ⟨hle, hlt⟩), by decide +kernel⟩,
    ⟨nofun, ?_, ?_, ?_⟩, fun i hle hlt => hmember i (List.mem_range'_1.mpr ⟨hle, hlt⟩), by decide +kernel⟩
  · rintro c ⟨⟩
    decide
  · exact .cons (by decide) _
  · rintro ⟨-, hnot⟩
    exact hnot ⟨['['], rfl⟩
  · rintro ⟨r, hr, -⟩
    exact absurd (List.cons.inj hr).1 (by decide)
  · exact .cons (by decide) _
  · rintro ⟨hpoint, -⟩
    exact absurd (point_suffix_iff.mp hpoint) (by decide)
  · rintro ⟨r, hr, hended⟩
    have hr : ".value".toList ++ ['$'] = ".value".toList ++ r := hr
    obtain rfl := List.append_cancel_left hr
    exact absurd (hended '$' rfl) (by decide)

end Trellis.Code
