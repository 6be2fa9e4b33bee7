import Mathlib.Data.List.Basic
import Trellis.Component.Service
import Trellis.Proofs.EndpointNames

/-!
# The URL of an endpoint as a template literal

`readLiteral` reads what stands behind the opening backtick of a template literal.  Escaped text reads as itself
(`readLiteral_inTemplate`), unless it ends with a dollar sign and a brace follows: the two are escaped only where they
stand together in one piece.  A URL is written in pieces, the base, the text of the path and its parameters, so it reads
as base and path except at one seam, a base that ends with `$` before a path that starts with a brace
(`readLiteral_urlTemplate`).  At that seam it reads as something else (`readLiteral_seam`), so the URL stands for the
declared endpoint exactly where the seam is clean (`serviceUrl_denotes`).
-/

namespace Trellis.Component

/-! ### Template literals -/

/-- A part of a template literal: a character, or an interpolated expression. -/
inductive LiteralPart where
  | char (c : Char)
  | hole (expression : Text)
  deriving DecidableEq, Repr

/-- The expression of an interpolation. -/
def LiteralPart.hole? : LiteralPart → Option Text
  | char _ => none
  | hole e => some e

/-- Reads a template literal up to its closing backtick.  An escaped character stands for itself.  An interpolation
ends at the next closing brace; `opened` is what was read of one that is open. -/
def readLiteral : (opened : Option Text) → Text → List LiteralPart
  | _, [] => []
  | some e, c :: r => if c = '\x7d' then .hole e :: readLiteral none r else readLiteral (some (e ++ [c])) r
  | none, '`' :: _ => []
  | none, '\\' :: c :: r => .char c :: readLiteral none r
  | none, '$' :: '\x7b' :: r => readLiteral (some []) r
  | none, c :: r => .char c :: readLiteral none r

/-- The interpolated expressions of the template literal of a line. -/
def holes (t : Text) : List Text :=
  (readLiteral none ((t.dropWhile (· ≠ '`')).drop 1)).filterMap LiteralPart.hole?

variable {n path rest t : Text} {c : Char}

theorem readLiteral_plain (hclose : c ≠ '`') (hescape : c ≠ '\\') (hopen : c = '$' → rest.head? ≠ some '\x7b') :
    readLiteral none (c :: rest) = .char c :: readLiteral none rest := by
  rw [readLiteral.eq_def]
  split
  · next h => cases h
  · next h _ => cases h
  · next h => exact absurd (List.cons.inj h).1 hclose
  · next h => exact absurd (List.cons.inj h).1 hescape
  · next h =>
    obtain ⟨rfl, rfl⟩ := List.cons.inj h
    exact absurd rfl (hopen rfl)
  · next h =>
    obtain ⟨rfl, rfl⟩ := List.cons.inj h
    rfl

/-- Escaping puts no brace at the start of a text and takes none away. -/
theorem head?_inTemplate_append (t rest : Text) :
    (Escape.inTemplate t ++ rest).head? = some '\x7b' ↔ (t ++ rest).head? = some '\x7b' := by
  fun_cases Escape.inTemplate t <;> simp

/-- **Escaped text reads as itself**, unless what follows makes its last dollar sign open an interpolation. -/
theorem readLiteral_inTemplate (h : t.getLast? = some '$' → rest.head? ≠ some '\x7b') :
    readLiteral none (Escape.inTemplate t ++ rest) = t.map .char ++ readLiteral none rest := by
  fun_induction Escape.inTemplate t with
  | case1 => rfl
  | case2 t ih => exact congrArg (.char '\\' :: ·) (ih fun hlast => h (List.mem_getLast?_cons hlast))
  | case3 t ih => exact congrArg (.char '`' :: ·) (ih fun hlast => h (List.mem_getLast?_cons hlast))
  | case4 t ih =>
    have hbrace : readLiteral none ('\x7b' :: (Escape.inTemplate t ++ rest)) =
        .char '\x7b' :: readLiteral none (Escape.inTemplate t ++ rest) :=
      readLiteral_plain (by decide) (by decide) fun heq => absurd heq (by decide)
    have hrest := ih fun hlast => h (List.mem_getLast?_cons (List.mem_getLast?_cons hlast))
    exact congrArg (.char '$' :: ·) (hbrace.trans (congrArg (.char '\x7b' :: ·) hrest))
  | case5 c t hescape hclose hopen ih =>
    have hseam : c = '$' → (Escape.inTemplate t ++ rest).head? ≠ some '\x7b' := by
      rintro rfl hhead
      rw [head?_inTemplate_append] at hhead
      cases t with
      | nil => exact h rfl hhead
      | cons d t => exact hopen t rfl (congrArg (· :: t) (Option.some.inj hhead))
    rw [List.cons_append, readLiteral_plain hclose hescape hseam, ih fun hlast => h (List.mem_getLast?_cons hlast)]
    rfl

/-- An interpolation reads as one. -/
theorem readLiteral_hole (hn : ∀ c ∈ n, c ≠ '\x7d') (rest : Text) :
    readLiteral none ("$\x7b" ++ n ++ "\x7d" ++ rest) = .hole n :: readLiteral none rest := by
  have hopened : ∀ e : Text, readLiteral (some e) (n ++ '\x7d' :: rest) = .hole (e ++ n) :: readLiteral none rest := by
    induction n with
    | nil =>
      intro e
      rw [List.nil_append, readLiteral, if_pos rfl, List.append_nil]
    | cons c n ih =>
      obtain ⟨hc, hn⟩ := List.forall_mem_cons.mp hn
      intro e
      rw [List.cons_append, readLiteral, if_neg hc, ih hn, List.append_assoc]
      rfl
  rw [List.append_assoc, List.append_assoc]
  exact hopened []

/-! ### The pieces of a path -/

theorem pathParams_word_append {w : Text} (hw : ∀ c ∈ w, Text.isWord c = true) (t : Text) :
    Form.pathParams (w ++ t) = Form.pathParams t := by
  induction w with
  | nil => rfl
  | cons c w ih =>
    obtain ⟨hc, hw⟩ := List.forall_mem_cons.mp hw
    have hcolon : c ≠ ':' := by
      rintro rfl
      revert hc
      decide
    rw [List.cons_append, Form.pathParams, ih hw]
    exact hcolon

/-- The parameters at which a path is cut are its parameters. -/
theorem params_pathPieces (path : Text) : (pathPieces path).params.map Prod.fst = Form.pathParams path := by
  fun_induction pathPieces path with
  | case1 => rfl
  | case2 c r h rest ih =>
    -- a colon with a word behind it
    obtain ⟨hc, hword⟩ := Bool.and_eq_true_iff.mp h
    rw [decide_eq_true_eq] at hc
    have hrest : Form.pathParams r = Form.pathParams (r.dropWhile Text.isWord) := by
      rw [← pathParams_word_append (fun c hc => List.mem_takeWhile_imp hc) (r.dropWhile Text.isWord),
        List.takeWhile_append_dropWhile]
    subst hc
    rw [List.map_cons, ih, ← hrest, Form.pathParams]
    split
    · next hnone =>
      rw [hnone] at hword
      cases hword
    · rfl
  | case3 c r h rest ih =>
    rw [ih]
    by_cases hc : c = ':'
    · -- a colon alone is no parameter
      subst hc
      have hnone : r.takeWhile Text.isWord = [] := by simpa using h
      rw [Form.pathParams, hnone]
    · rw [Form.pathParams]
      exact hc

/-- The text before the first parameter of a path starts as the path does, or with nothing. -/
theorem head?_pathPieces (h : (pathPieces path).text.head? = some c) : path.head? = some c := by
  unfold pathPieces at h
  split at h
  · cases h
  · split at h
    · cases h
    · exact h

/-! ### The URL -/

/-- The parts of a parameter of a path and of the text behind it. -/
def pieceParts (piece : Text × Text) : List LiteralPart := .hole piece.1 :: piece.2.map .char

/-- No piece of a path starts with a brace. -/
theorem head?_interpolate (pieces : List (Text × Text)) (hrest : rest.head? ≠ some '\x7b') :
    (pieces.flatMap interpolate ++ rest).head? ≠ some '\x7b' := by
  cases pieces with
  | nil => exact hrest
  | cons p pieces => simp [interpolate]

theorem readLiteral_interpolate {pieces : List (Text × Text)} (hpieces : ∀ p ∈ pieces, ∀ c ∈ p.1, c ≠ '\x7d')
    (hrest : rest.head? ≠ some '\x7b') :
    readLiteral none (pieces.flatMap interpolate ++ rest) = pieces.flatMap pieceParts ++ readLiteral none rest := by
  induction pieces with
  | nil => rfl
  | cons p pieces ih =>
    obtain ⟨hp, hpieces⟩ := List.forall_mem_cons.mp hpieces
    rw [List.flatMap_cons, List.flatMap_cons, interpolate, List.append_assoc, List.append_assoc, readLiteral_hole hp,
      readLiteral_inTemplate fun _ => head?_interpolate pieces hrest, ih hpieces, pieceParts, List.append_assoc]
    rfl

/-- **A URL reads as its base and its path**, with the parameters of the path interpolated, if a base that ends with a
dollar sign does not meet a path that starts with a brace. -/
theorem readLiteral_urlTemplate {baseUrl : Text} (hrest : rest.head? ≠ some '\x7b')
    (hseam : ¬ (baseUrl.getLast? = some '$' ∧ path.head? = some '\x7b')) :
    readLiteral none (urlTemplate baseUrl path ++ rest) =
      (if path.head? = some '/' then Text.trimEndOf '/' baseUrl else baseUrl).map .char ++
        (pathPieces path).text.map .char ++ (pathPieces path).params.flatMap pieceParts ++ readLiteral none rest := by
  have hbehind := head?_interpolate (pathPieces path).params hrest
  have hnames : ∀ p ∈ (pathPieces path).params, ∀ c ∈ p.1, c ≠ '\x7d' := by
    intro p hp c hc
    have hp : p.1 ∈ Form.pathParams path := params_pathPieces path ▸ List.mem_map_of_mem hp
    rintro rfl
    exact absurd ((Form.isWord_of_mem_pathParams hp).2 _ hc) (by decide)
  -- at the seam a brace could only come from the path itself
  have hbase : (if path.head? = some '/' then Text.trimEndOf '/' baseUrl else baseUrl).getLast? = some '$' →
      (Escape.inTemplate (pathPieces path).text ++ ((pathPieces path).params.flatMap interpolate ++ rest)).head? ≠
        some '\x7b' := by
    intro hlast hhead
    rw [head?_inTemplate_append] at hhead
    cases htext : (pathPieces path).text with
    | nil =>
      rw [htext] at hhead
      exact hbehind hhead
    | cons c text =>
      rw [htext] at hhead
      have hpath : path.head? = some '\x7b' := head?_pathPieces (by rw [htext]; exact hhead)
      rw [hpath, if_neg (by decide)] at hlast
      exact hseam ⟨hlast, hpath⟩
  unfold urlTemplate
  simp only [List.append_assoc]
  rw [readLiteral_inTemplate hbase, readLiteral_inTemplate fun _ => hbehind, readLiteral_interpolate hnames hrest]

theorem filterMap_hole?_char (t : Text) : (t.map LiteralPart.char).filterMap LiteralPart.hole? = [] := by
  simp [LiteralPart.hole?]

theorem filterMap_hole?_pieceParts (pieces : List (Text × Text)) :
    (pieces.flatMap pieceParts).filterMap LiteralPart.hole? = pieces.map Prod.fst := by
  induction pieces with
  | nil => rfl
  | cons p pieces ih =>
    rw [List.flatMap_cons, List.filterMap_append, ih, pieceParts, List.filterMap_cons, filterMap_hole?_char]
    rfl

/-! ### The endpoint that a URL stands for -/

/-- A part of a URL as it was declared: an interpolation is put back as a parameter. -/
def LiteralPart.declared : LiteralPart → Text
  | char c => [c]
  | hole e => ':' :: e

/-- The text is one template literal with the given parts.  Whatever follows its body is read behind these parts, so
nothing in the body closes the literal, and no interpolation stays open. -/
def ReadsAs (t : Text) (parts : List LiteralPart) : Prop :=
  ∃ body : Text, t = "`" ++ body ++ "`" ∧
    ∀ rest : Text, rest.head? ≠ some '\x7b' → readLiteral none (body ++ rest) = parts ++ readLiteral none rest

/-- The base of a URL, without its trailing slashes where the path has its own. -/
def baseBefore (path baseUrl : Text) : Text := if path.head? = some '/' then Text.trimEndOf '/' baseUrl else baseUrl

/-- The URL stands for the endpoint: it interpolates the parameters of the path, in order, and with these put back it
reads as the base and the path. -/
def Denotes (url baseUrl path : Text) : Prop :=
  ∃ parts, ReadsAs url parts ∧ parts.filterMap LiteralPart.hole? = Form.pathParams path ∧
    parts.flatMap LiteralPart.declared = baseBefore path baseUrl ++ path

theorem flatMap_declared_char (t : Text) : (t.map LiteralPart.char).flatMap LiteralPart.declared = t := by
  rw [List.flatMap_map]
  exact List.flatMap_singleton' t

/-- The pieces of a path make it up. -/
theorem declared_pathPieces (path : Text) :
    (pathPieces path).text ++ ((pathPieces path).params.flatMap pieceParts).flatMap LiteralPart.declared = path := by
  fun_induction pathPieces path with
  | case1 => rfl
  | case2 c r h rest ih =>
    obtain ⟨hc, -⟩ := Bool.and_eq_true_iff.mp h
    obtain rfl : c = ':' := of_decide_eq_true hc
    have hsplit := List.takeWhile_append_dropWhile (p := Text.isWord) (l := r)
    rw [List.nil_append, List.flatMap_cons, pieceParts, List.flatMap_append, List.flatMap_cons, flatMap_declared_char,
      List.append_assoc, ih]
    exact congrArg (':' :: ·) hsplit
  | case3 c r h rest ih =>
    rw [List.cons_append]
    exact congrArg (c :: ·) ih

/-- A dollar sign at the end of a text is not escaped. -/
theorem inTemplate_dollar (x : Text) : Escape.inTemplate (x ++ ['$']) = Escape.inTemplate x ++ ['$'] := by
  fun_induction Escape.inTemplate x with
  | case1 => rfl
  | case2 t ih => exact congrArg ('\\' :: '\\' :: ·) ih
  | case3 t ih => exact congrArg ('\\' :: '`' :: ·) ih
  | case4 t ih => exact congrArg ('\\' :: '$' :: '\x7b' :: ·) ih
  | case5 c t hescape hclose hopen ih =>
    have hdollar : ∀ u, c = '$' → t ++ ['$'] = '\x7b' :: u → False := by
      rintro u rfl hu
      cases t with
      | nil => exact absurd (List.cons.inj hu).1 (by decide)
      | cons d t => exact hopen t rfl (congrArg (· :: t) (List.cons.inj hu).1)
    rw [List.cons_append, Escape.inTemplate.eq_5 _ _ hescape hclose hdollar, ih, List.cons_append]

/-- What is read of an open interpolation is nothing, or starts with that interpolation. -/
theorem readLiteral_opened (e t : Text) :
    readLiteral (some e) t = [] ∨ ∃ e' parts, readLiteral (some e) t = .hole e' :: parts := by
  induction t generalizing e with
  | nil => exact .inl rfl
  | cons c t ih =>
    rw [readLiteral]
    split
    · exact .inr ⟨e, _, rfl⟩
    · exact ih _

/-- At the seam the dollar sign of the base and the brace of the path open an interpolation. -/
theorem readLiteral_seam (x p rest : Text) :
    ∃ r, readLiteral none (urlTemplate (x ++ ['$']) ('\x7b' :: p) ++ rest) = x.map .char ++ readLiteral (some []) r := by
  have htext : (pathPieces ('\x7b' :: p)).text = '\x7b' :: (pathPieces p).text := by
    rw [pathPieces]
    rfl
  have hbrace : Escape.inTemplate ('\x7b' :: (pathPieces p).text) = '\x7b' :: Escape.inTemplate (pathPieces p).text := rfl
  refine ⟨Escape.inTemplate (pathPieces p).text ++ ((pathPieces ('\x7b' :: p)).params.flatMap interpolate ++ rest), ?_⟩
  unfold urlTemplate
  rw [if_neg (by simp)]
  simp only [htext, inTemplate_dollar, hbrace, List.append_assoc]
  rw [readLiteral_inTemplate (fun _ => by simp)]
  rfl

/-- A URL with a dollar sign before a brace at its seam does not stand for its endpoint. -/
theorem not_denotes_of_seam {baseUrl : Text} (hbase : baseUrl.getLast? = some '$') (hpath : path.head? = some '\x7b') :
    ¬ Denotes (serviceUrl baseUrl path) baseUrl path := by
  obtain ⟨x, rfl⟩ := List.getLast?_eq_some_iff.mp hbase
  obtain ⟨p, rfl⟩ := List.head?_eq_some_iff.mp hpath
  rintro ⟨parts, ⟨body, hbody, hread⟩, -, hdeclared⟩
  have hbody : urlTemplate (x ++ ['$']) ('\x7b' :: p) = body :=
    List.append_cancel_left (List.append_cancel_right hbody)
  obtain ⟨r, hseam⟩ := readLiteral_seam x p []
  have hparts := hread [] (by simp)
  rw [← hbody, hseam, show readLiteral none [] = [] from rfl, List.append_nil] at hparts
  rw [← hparts, List.flatMap_append, flatMap_declared_char, baseBefore, if_neg (by simp), List.append_assoc] at hdeclared
  have hrest := List.append_cancel_left hdeclared
  -- Behind the base stands nothing or a parameter, and not the dollar sign.
  rcases readLiteral_opened [] r with hnone | ⟨e, ps, hhole⟩
  · rw [hnone] at hrest
    exact absurd hrest (by simp)
  · rw [hhole, List.flatMap_cons] at hrest
    exact absurd (List.cons.inj hrest).1 (by decide)

/-- **A URL stands for its endpoint exactly when the seam is clean**: for every base and every path, the template literal
interpolates the parameters of the path, in order, and reads as the base and the path, unless the base ends with a dollar
sign and the path starts with a brace. -/
theorem serviceUrl_denotes (baseUrl path : Text) :
    Denotes (serviceUrl baseUrl path) baseUrl path ↔
      ¬ (baseUrl.getLast? = some '$' ∧ path.head? = some '\x7b') := by
  constructor
  · rintro hdenotes ⟨hbase, hpath⟩
    exact not_denotes_of_seam hbase hpath hdenotes
  · intro hseam
    refine ⟨_, ⟨urlTemplate baseUrl path, rfl, fun rest hrest => readLiteral_urlTemplate hrest hseam⟩, ?_, ?_⟩
    · simp only [List.filterMap_append, filterMap_hole?_char, filterMap_hole?_pieceParts, params_pathPieces,
        List.nil_append]
    · rw [List.flatMap_append, List.flatMap_append, flatMap_declared_char, flatMap_declared_char, List.append_assoc,
        declared_pathPieces]
      rfl

/-- The dollar sign of a base and the brace of a path make an interpolation of what is no parameter. -/
theorem dollar_meets_brace :
    serviceUrl "http://x$" "\x7by\x7d" = "`http://x$\x7by\x7d`" ∧ Form.pathParams "\x7by\x7d" = [] ∧
      holes (serviceUrl "http://x$" "\x7by\x7d") = ["y"] ∧
      ¬ Denotes (serviceUrl "http://x$" "\x7by\x7d") "http://x$" "\x7by\x7d" :=
  ⟨by decide +kernel, by decide, by decide +kernel, not_denotes_of_seam (by decide) (by decide)⟩

end Trellis.Component
