import Mathlib.Data.List.Basic
import Trellis.Proofs.UrlTemplate

/-!
# Escaped text

Escaping can be undone, and escaped text cannot end what it is written into.  Markup and attributes keep none of their
own signs, a single-quoted string has no quote inside that is not escaped and no line feed, and a template string has
neither a backtick nor the opening of an interpolation that is not escaped.  One pass from left to right gives the text
back (`escaping_reversible`).  All signs are escaped at once; to replace one after the other gives the same, as long as
the sign that the escapes start with comes first.
-/

namespace Trellis

/-! ### Substitutions -/

namespace Text

/-- The text with `new` in place of every `first :: more`, from left to right. -/
def substitute (first : Char) (more new : Text) : Text → Text
  | [] => []
  | c :: t =>
    match _h : if c = first then after? more t else none with
    | some rest => new ++ substitute first more new rest
    | none => c :: substitute first more new t
termination_by t => t.length
decreasing_by
  · split at _h
    · rw [after?_eq_some_iff.mp _h, List.length_cons, List.length_append]
      omega
    · cases _h
  · exact Nat.lt_succ_self _

/-- The substitutions of a table, one after the other. -/
def substituteEach (table : List (Text × Text)) (t : Text) : Text :=
  table.foldl (fun u entry => match entry.1 with
    | [] => u
    | first :: more => substitute first more entry.2 u) t

variable {first c : Char} {more new : Text}

theorem substitute_hit (t : Text) :
    substitute first more new (first :: (more ++ t)) = new ++ substitute first more new t := by
  have hafter : (if first = first then after? more (more ++ t) else none) = some t := by
    rw [if_pos rfl]
    exact after?_eq_some_iff.mpr rfl
  rw [substitute]
  split
  · next rest hrest =>
    rw [hafter] at hrest
    cases hrest
    rfl
  · next hnone =>
    rw [hafter] at hnone
    cases hnone

theorem substitute_miss {t : Text} (h : c = first → ∀ rest, t ≠ more ++ rest) :
    substitute first more new (c :: t) = c :: substitute first more new t := by
  have hafter : (if c = first then after? more t else none) = none := by
    split
    · next heq =>
      rw [Option.eq_none_iff_forall_ne_some]
      exact fun rest hrest => h heq rest (after?_eq_some_iff.mp hrest)
    · rfl
  rw [substitute]
  split
  · next hrest =>
    rw [hafter] at hrest
    cases hrest
  · rfl

/-- One character, with `new` in place of `old`. -/
def swap (old : Char) (new : Text) (c : Char) : Text := if c = old then new else [c]

theorem swap_of_ne (h : c ≠ first) : swap first new c = [c] := if_neg h

/-- A single character is replaced character by character. -/
theorem substitute_char (first : Char) (new t : Text) : substitute first [] new t = t.flatMap (swap first new) := by
  induction t with
  | nil => rw [substitute, List.flatMap_nil]
  | cons c t ih =>
    rw [List.flatMap_cons, ← ih]
    by_cases hc : c = first
    · rw [hc, swap, if_pos rfl]
      exact substitute_hit t
    · rw [substitute_miss fun heq => absurd heq hc, swap_of_ne hc, List.singleton_append]

end Text

namespace Escape

variable {c : Char} {rest t u v w : Text}

/-- What is escaped character by character is undone, if every character is. -/
theorem undo_flatMap {undo : Text → Text} {f : Char → Text} (hnil : undo [] = [])
    (h : ∀ c rest, undo (f c ++ rest) = c :: undo rest) (t : Text) : undo (t.flatMap f) = t := by
  induction t with
  | nil => exact hnil
  | cons c t ih => rw [List.flatMap_cons, h, ih]

/-- No sign is left where every character is written with letters that are no signs, or is no sign itself. -/
theorem not_mem_flatMap {f : Char → Text} {signs letters : Text}
    (hf : ∀ c, f c ⊆ letters ∨ f c = [c] ∧ c ∉ signs) (hletters : signs.all (!letters.contains ·) = true) (t : Text) :
    ∀ sign ∈ signs, sign ∉ t.flatMap f := by
  intro sign hsign hmem
  obtain ⟨c, -, hc⟩ := List.mem_flatMap.mp hmem
  rcases hf c with hsub | ⟨hplain, hother⟩
  · have hnot := List.all_eq_true.mp hletters sign hsign
    simp [hsub hc] at hnot
  · rw [hplain, List.mem_singleton] at hc
    exact hother (hc ▸ hsign)

/-! ### Entities -/

/-- Undoes the entities of a text in one pass from left to right. -/
def undoEntities : Text → Text
  | '&' :: 'a' :: 'm' :: 'p' :: ';' :: t => '&' :: undoEntities t
  | '&' :: 'l' :: 't' :: ';' :: t => '<' :: undoEntities t
  | '&' :: 'g' :: 't' :: ';' :: t => '>' :: undoEntities t
  | '&' :: 'q' :: 'u' :: 'o' :: 't' :: ';' :: t => '"' :: undoEntities t
  | '&' :: '#' :: 'x' :: '2' :: '7' :: ';' :: t => '\'' :: undoEntities t
  | c :: t => c :: undoEntities t
  | [] => []

/-- `u` is the text `t` inside markup that keeps the signs for itself. -/
structure InMarkup (signs t u : Text) : Prop where
  safe : ∀ c ∈ signs, c ∉ u
  undo : undoEntities u = t

theorem undoEntities_plain (hc : c ≠ '&') (t : Text) : undoEntities (c :: t) = c :: undoEntities t := by
  rw [undoEntities]
  all_goals
    intros
    exact hc ‹_›

theorem undoEntities_textChar (c : Char) (t : Text) : undoEntities (textChar c ++ t) = c :: undoEntities t := by
  fun_cases textChar c with
  | case1 => rfl
  | case2 => rfl
  | case3 => rfl
  | case4 c hand => exact undoEntities_plain hand t

theorem undoEntities_attributeChar (c : Char) (t : Text) :
    undoEntities (attributeChar c ++ t) = c :: undoEntities t := by
  fun_cases attributeChar c with
  | case1 => rfl
  | case2 => rfl
  | case3 c => exact undoEntities_textChar c t

def entityLetters : Text := "&amp;&lt;&gt;&quot;&#x27;"

theorem textChar_letters (c : Char) : textChar c ⊆ entityLetters ∨ textChar c = [c] ∧ c ∉ ("<>" : Text) := by
  fun_cases textChar c with
  | case1 => exact .inl (by decide)
  | case2 => exact .inl (by decide)
  | case3 => exact .inl (by decide)
  | case4 c _ hless hgreater => exact .inr ⟨rfl, by simpa using ⟨hless, hgreater⟩⟩

theorem attributeChar_letters (c : Char) :
    attributeChar c ⊆ entityLetters ∨ attributeChar c = [c] ∧ c ∉ ("<>\"'" : Text) := by
  fun_cases attributeChar c with
  | case1 => exact .inl (by decide)
  | case2 => exact .inl (by decide)
  | case3 c hdouble hsingle =>
    rcases textChar_letters c with hletters | ⟨hplain, hmarkup⟩
    · exact .inl hletters
    · refine .inr ⟨hplain, fun hmem => ?_⟩
      rcases List.mem_append.mp (show c ∈ ("<>" : Text) ++ ['"', '\''] from hmem) with hmem | hmem
      · exact hmarkup hmem
      · rcases List.mem_pair.mp hmem with rfl | rfl
        · exact hdouble rfl
        · exact hsingle rfl

theorem inMarkup_inText (t : Text) : InMarkup "<>" t (inText t) where
  safe := not_mem_flatMap textChar_letters (by decide) t
  undo := undo_flatMap rfl undoEntities_textChar t

theorem inMarkup_inAttribute (t : Text) : InMarkup "<>\"'" t (inAttribute t) where
  safe := not_mem_flatMap attributeChar_letters (by decide) t
  undo := undo_flatMap rfl undoEntities_attributeChar t

/-! ### Backslashes -/

/-- Undoes the backslash escapes of a text in one pass from left to right: `\n` is a line feed, and any other character
stands for itself. -/
def undoBackslashes : Text → Text
  | '\\' :: c :: t => (if c = 'n' then '\n' else c) :: undoBackslashes t
  | c :: t => c :: undoBackslashes t
  | [] => []

/-- The text ends with a backslash that escapes what comes next. -/
def escapesNext (t : Text) : Bool := t.foldl (fun opened c => !opened && c = '\\') false

theorem undoBackslashes_plain (hc : c ≠ '\\') (t : Text) : undoBackslashes (c :: t) = c :: undoBackslashes t := by
  rw [undoBackslashes]
  exact fun _ _ heq => absurd heq hc

theorem escapesNext_append (h : escapesNext w = false) (v : Text) : escapesNext (w ++ v) = escapesNext v := by
  rw [escapesNext, List.foldl_append]
  exact congrArg (v.foldl _) h

theorem escapesNext_singleton (hc : c ≠ '\\') : escapesNext [c] = false := by simpa [escapesNext] using hc

/-- Every `c` in the text is escaped, and the text does not escape what comes next. -/
structure Shields (c : Char) (w : Text) : Prop where
  closed : escapesNext w = false
  escaped : ∀ before after, w = before ++ c :: after → escapesNext before = true

theorem Shields.of_not_mem (hclosed : escapesNext w = false) (h : c ∉ w) : Shields c w where
  closed := hclosed
  escaped before _ hw := absurd (hw ▸ List.mem_append_right before List.mem_cons_self) h

/-- A character behind a backslash is escaped. -/
theorem shields_escape (hc : c ≠ '\\') : Shields c ['\\', c] where
  closed := by simp [escapesNext]
  escaped before after h := by
    rcases before with _ | ⟨a, _ | ⟨b, before⟩⟩
    · exact absurd (List.cons.inj h).1.symm hc
    · obtain ⟨rfl, -⟩ := List.cons.inj h
      rfl
    · simp at h

theorem Shields.append (hw : Shields c w) (hv : Shields c v) : Shields c (w ++ v) where
  closed := by rw [escapesNext_append hw.closed, hv.closed]
  escaped before after h := by
    rcases List.append_eq_append_iff.mp h with ⟨v', rfl, hv'⟩ | ⟨w', hw', hafter⟩
    · rw [escapesNext_append hw.closed]
      exact hv.escaped v' after hv'
    · cases w' with
      | nil =>
        -- at the seam: nothing of the second part stands before its first character to escape it
        exact absurd (hv.escaped [] after hafter.symm) Bool.false_ne_true
      | cons d w' =>
        obtain ⟨rfl, -⟩ := List.cons.inj hafter
        exact hw.escaped before w' hw'

theorem shields_flatMap {f : Char → Text} (h : ∀ x, Shields c (f x)) (t : Text) : Shields c (t.flatMap f) := by
  induction t with
  | nil => exact .of_not_mem rfl List.not_mem_nil
  | cons x t ih =>
    rw [List.flatMap_cons]
    exact (h x).append ih

/-! ### Single-quoted strings -/

/-- `u` is the text `t` as a single-quoted string. -/
structure InString (t u : Text) : Prop where
  quoted : ∃ body, u = '\'' :: (body ++ ['\'']) ∧ escapesNext ('\'' :: body) = false ∧ undoBackslashes body = t
  safe : ∀ before after, u = before ++ '\'' :: after → escapesNext before = false → before = [] ∨ after = []
  unbroken : '\n' ∉ u

theorem undoBackslashes_stringChar (c : Char) (t : Text) :
    undoBackslashes (stringChar c ++ t) = c :: undoBackslashes t := by
  fun_cases stringChar c with
  | case1 => rfl
  | case2 => rfl
  | case3 => rfl
  | case4 c hback => exact undoBackslashes_plain hback t

theorem shields_stringChar (c : Char) : Shields '\'' (stringChar c) := by
  fun_cases stringChar c with
  | case1 => exact .of_not_mem rfl (by decide)
  | case2 => exact shields_escape (by decide)
  | case3 => exact .of_not_mem rfl (by decide)
  | case4 c hback hquote => exact .of_not_mem (escapesNext_singleton hback) (by simpa using Ne.symm hquote)

theorem stringChar_letters (c : Char) : stringChar c ⊆ ("\\'n" : Text) ∨ stringChar c = [c] ∧ c ∉ ['\n'] := by
  fun_cases stringChar c with
  | case1 => exact .inl (by decide)
  | case2 => exact .inl (by decide)
  | case3 => exact .inl (by decide)
  | case4 c _ _ hfeed => exact .inr ⟨rfl, by simpa using hfeed⟩

theorem inString_quotedString (t : Text) : InString t (quotedString t) where
  quoted := by
    refine ⟨t.flatMap stringChar, rfl, ?_, undo_flatMap rfl undoBackslashes_stringChar t⟩
    exact (escapesNext_append (w := ['\'']) rfl _).trans (shields_flatMap shields_stringChar t).closed
  safe before after h hclosed := by
    cases before with
    | nil => exact .inl rfl
    | cons q before =>
      right
      obtain ⟨rfl, hbody⟩ := List.cons.inj h
      have hclosed : escapesNext before = false := (escapesNext_append (w := ['\'']) rfl before).symm.trans hclosed
      -- the quote is the closing one, or it stands in the body, where quotes are escaped
      rcases List.append_eq_append_iff.mp hbody with ⟨x, -, hx⟩ | ⟨x, hx, hafter⟩
      · cases x with
        | nil => exact (List.cons.inj hx).2.symm
        | cons _ x => simp at hx
      · cases x with
        | nil => exact (List.cons.inj hafter).2
        | cons d x =>
          obtain ⟨rfl, -⟩ := List.cons.inj hafter
          rw [(shields_flatMap shields_stringChar t).escaped before x hx] at hclosed
          cases hclosed
  unbroken := by
    have hbody := not_mem_flatMap stringChar_letters (by decide) t '\n' List.mem_cons_self
    simpa [quotedString] using hbody

/-! ### Template strings -/

/-- `u` is the text `t` inside a template string. -/
structure InTemplate (t u : Text) : Prop where
  tick : ∀ before after, u = before ++ '`' :: after → escapesNext before = true
  interpolation : ∀ before after, u = before ++ '$' :: '\x7b' :: after → escapesNext before = true
  undo : undoBackslashes u = t

theorem shields_inTemplate (t : Text) : Shields '`' (inTemplate t) := by
  fun_induction inTemplate t with
  | case1 => exact .of_not_mem rfl List.not_mem_nil
  | case2 t ih => exact Shields.append (w := ['\\', '\\']) (.of_not_mem rfl (by decide)) ih
  | case3 t ih => exact (shields_escape (by decide)).append ih
  | case4 t ih => exact Shields.append (w := ['\\', '$', '\x7b']) (.of_not_mem rfl (by decide)) ih
  | case5 c t hback htick _ ih =>
    have hc : Shields '`' [c] := .of_not_mem (escapesNext_singleton hback) (by simpa using Ne.symm htick)
    exact hc.append ih

theorem undoBackslashes_inTemplate (t : Text) : undoBackslashes (inTemplate t) = t := by
  fun_induction inTemplate t with
  | case1 => rfl
  | case2 t ih => exact congrArg ('\\' :: ·) ih
  | case3 t ih => exact congrArg ('`' :: ·) ih
  | case4 t ih => exact congrArg (fun u => '$' :: '\x7b' :: u) ih
  | case5 c t hback _ _ ih => rw [undoBackslashes_plain hback, ih]

/-- Behind a backslash and the character that it escapes, only what follows these has to be looked at. -/
theorem escapesNext_of_pair {x y : Char} {before after : Text} (hy : y ≠ '\\') (h : '\\' :: x :: w = before ++ y :: after)
    (hw : ∀ before, w = before ++ y :: after → escapesNext before = true) : escapesNext before = true := by
  rcases before with _ | ⟨a, _ | ⟨b, before⟩⟩
  · exact absurd (List.cons.inj h).1.symm hy
  · obtain ⟨rfl, -⟩ := List.cons.inj h
    rfl
  · simp only [List.cons_append, List.cons.injEq] at h
    obtain ⟨rfl, rfl, h⟩ := h
    have hpair : escapesNext ['\\', x] = false := by simp [escapesNext]
    exact (escapesNext_append hpair before).trans (hw before h)

/-- Behind a character other than a backslash that what is sought does not start with, the same. -/
theorem escapesNext_of_plain {x y : Char} {before after : Text} (hx : x ≠ '\\') (h : x :: w = before ++ y :: after)
    (hstart : x = y → w ≠ after) (hw : ∀ before, w = before ++ y :: after → escapesNext before = true) :
    escapesNext before = true := by
  cases before with
  | nil =>
    obtain ⟨hxy, hafter⟩ := List.cons.inj h
    exact absurd hafter (hstart hxy)
  | cons a before =>
    obtain ⟨rfl, hrest⟩ := List.cons.inj h
    exact (escapesNext_append (escapesNext_singleton hx) before).trans (hw before hrest)

theorem interpolation_escaped (t before after : Text) (h : inTemplate t = before ++ '$' :: '\x7b' :: after) :
    escapesNext before = true := by
  fun_induction inTemplate t generalizing before with
  | case1 => simp at h
  | case2 t ih => exact escapesNext_of_pair (by decide) h ih
  | case3 t ih => exact escapesNext_of_pair (by decide) h ih
  | case4 t ih =>
    refine escapesNext_of_pair (by decide) h fun before h => ?_
    exact escapesNext_of_plain (by decide) h (fun heq => absurd heq (by decide)) ih
  | case5 c t hback _ hopen ih =>
    -- a dollar sign that is left alone has no brace behind it, and escaping puts none there
    refine escapesNext_of_plain hback h (fun hc heq => ?_) ih
    have hhead : (t ++ []).head? = some '\x7b' := by
      rw [← Component.head?_inTemplate_append, heq]
      rfl
    obtain ⟨r, hr⟩ := List.head?_eq_some_iff.mp (List.append_nil t ▸ hhead)
    exact hopen r hc hr

theorem inTemplate_inTemplate (t : Text) : InTemplate t (inTemplate t) where
  tick := (shields_inTemplate t).escaped
  interpolation := interpolation_escaped t
  undo := undoBackslashes_inTemplate t

/-! ### One sign after the other -/

/-- The signs of markup, the one that entities start with first. -/
def markupTable : List (Text × Text) := [("&", "&amp;"), ("<", "&lt;"), (">", "&gt;")]

/-- The signs of an attribute. -/
def attributeTable : List (Text × Text) := markupTable ++ ([("\"", "&quot;"), ("'", "&#x27;")] : List (Text × Text))

/-- The signs of a single-quoted string, the backslash first. -/
def stringTable : List (Text × Text) := [("\\", "\\\\"), ("'", "\\'"), ("\n", "\\n")]

/-- The signs of a template string, the backslash first. -/
def templateTable : List (Text × Text) := [("\\", "\\\\"), ("`", "\\`"), ("$\x7b", "\\$\x7b")]

/-- No entity holds a sign that is replaced after it was written. -/
theorem inText_eq_substituteEach (t : Text) : inText t = Text.substituteEach markupTable t := by
  show _ = Text.substitute '>' [] "&gt;" (Text.substitute '<' [] "&lt;" (Text.substitute '&' [] "&amp;" t))
  rw [Text.substitute_char, Text.substitute_char, Text.substitute_char, List.flatMap_assoc, List.flatMap_assoc]
  refine congrArg t.flatMap (funext fun c => ?_)
  fun_cases textChar c with
  | case1 => rfl
  | case2 => rfl
  | case3 => rfl
  | case4 c hand hless hgreater =>
    rw [Text.swap_of_ne hand, List.flatMap_singleton, Text.swap_of_ne hless, List.flatMap_singleton,
      Text.swap_of_ne hgreater]

/-- An attribute is markup text whose quotes are replaced too. -/
theorem inAttribute_eq_substituteEach (t : Text) : inAttribute t = Text.substituteEach attributeTable t := by
  show _ = Text.substitute '\'' [] "&#x27;" (Text.substitute '"' [] "&quot;" (Text.substituteEach markupTable t))
  rw [← inText_eq_substituteEach, Text.substitute_char, Text.substitute_char, inText, List.flatMap_assoc,
    List.flatMap_assoc]
  refine congrArg t.flatMap (funext fun c => ?_)
  fun_cases attributeChar c with
  | case1 => rfl
  | case2 => rfl
  | case3 c hdouble hsingle =>
    fun_cases textChar c with
    | case1 => rfl
    | case2 => rfl
    | case3 => rfl
    | case4 c =>
      rw [List.flatMap_singleton, Text.swap_of_ne hdouble, List.flatMap_singleton, Text.swap_of_ne hsingle]

theorem quotedString_eq_substituteEach (t : Text) :
    quotedString t = '\'' :: Text.substituteEach stringTable t ++ ['\''] := by
  show _ = '\'' :: Text.substitute '\n' [] "\\n" (Text.substitute '\'' [] "\\'" (Text.substitute '\\' [] "\\\\" t)) ++ _
  rw [Text.substitute_char, Text.substitute_char, Text.substitute_char, List.flatMap_assoc, List.flatMap_assoc]
  refine congrArg (fun f => '\'' :: t.flatMap f ++ ['\'']) (funext fun c => ?_)
  fun_cases stringChar c with
  | case1 => rfl
  | case2 => rfl
  | case3 => rfl
  | case4 c hback hquote hfeed =>
    rw [Text.swap_of_ne hback, List.flatMap_singleton, Text.swap_of_ne hquote, List.flatMap_singleton,
      Text.swap_of_ne hfeed]

/-- One character of a template string, where the opening of an interpolation is left alone. -/
def templateChar : Char → Text
  | '\\' => "\\\\"
  | '`' => "\\`"
  | c => [c]

theorem templateChar_plain (hback : c ≠ '\\') (htick : c ≠ '`') : templateChar c = [c] := by
  rw [templateChar]
  · exact hback
  · exact htick

theorem head_flatMap_templateChar (h : t.flatMap templateChar = '\x7b' :: rest) : ∃ r, t = '\x7b' :: r := by
  cases t with
  | nil => cases h
  | cons c t =>
    rw [List.flatMap_cons] at h
    fun_cases templateChar c with
    | case1 => exact absurd (List.cons.inj h).1 (by decide)
    | case2 => exact absurd (List.cons.inj h).1 (by decide)
    | case3 c hback htick =>
      rw [templateChar_plain hback htick] at h
      exact ⟨t, congrArg (· :: t) (List.cons.inj h).1⟩

theorem inTemplate_eq_substitute (t : Text) :
    inTemplate t = Text.substitute '$' ['\x7b'] "\\$\x7b" (t.flatMap templateChar) := by
  -- what is escaped already is not the start of `${`
  have hescape : ∀ x u, x ≠ '$' → Text.substitute '$' ['\x7b'] "\\$\x7b" ('\\' :: x :: u) =
      '\\' :: x :: Text.substitute '$' ['\x7b'] "\\$\x7b" u := by
    intro x u hx
    rw [Text.substitute_miss fun heq => absurd heq (by decide), Text.substitute_miss fun heq => absurd heq hx]
  fun_induction inTemplate t with
  | case1 => rw [List.flatMap_nil, Text.substitute]
  | case2 t ih =>
    rw [ih]
    exact (hescape '\\' _ (by decide)).symm
  | case3 t ih =>
    rw [ih]
    exact (hescape '`' _ (by decide)).symm
  | case4 t ih =>
    -- a hole would open here
    rw [ih]
    exact (@Text.substitute_hit '$' ['\x7b'] "\\$\x7b" (t.flatMap templateChar)).symm
  | case5 c t hback htick hopen ih =>
    -- escaping makes no brace, so `${` stands there only if it stood there before
    rw [List.flatMap_cons, templateChar_plain hback htick, List.singleton_append, Text.substitute_miss, ih]
    intro hc rest hrest
    obtain ⟨r, hr⟩ := head_flatMap_templateChar hrest
    exact hopen r hc hr

theorem inTemplate_eq_substituteEach (t : Text) : inTemplate t = Text.substituteEach templateTable t := by
  show _ = Text.substitute '$' ['\x7b'] "\\$\x7b" (Text.substitute '`' [] "\\`" (Text.substitute '\\' [] "\\\\" t))
  rw [inTemplate_eq_substitute, Text.substitute_char, Text.substitute_char, List.flatMap_assoc]
  refine congrArg (fun f => Text.substitute _ _ _ (t.flatMap f)) (funext fun c => ?_)
  fun_cases templateChar c with
  | case1 => rfl
  | case2 => rfl
  | case3 c hback htick => rw [Text.swap_of_ne hback, List.flatMap_singleton, Text.swap_of_ne htick]

/-- **Escaping can be undone and cannot be broken out of**, for every text.  Markup and attributes are left without
their signs, and undoing the entities gives the text back.  In a single-quoted string only the quotes at its two ends are
not escaped, and there is no line feed; in a template string every backtick and every opening of an interpolation is
escaped.  Undoing the backslashes gives the text back.  Each of the four is what replacing one sign after the other makes
of the text. -/
theorem escaping_reversible (t : Text) :
    InMarkup "<>" t (inText t) ∧ InMarkup "<>\"'" t (inAttribute t) ∧ InString t (quotedString t) ∧
      InTemplate t (inTemplate t) ∧
      inText t = Text.substituteEach markupTable t ∧ inAttribute t = Text.substituteEach attributeTable t ∧
      quotedString t = '\'' :: Text.substituteEach stringTable t ++ ['\''] ∧
      inTemplate t = Text.substituteEach templateTable t :=
  ⟨inMarkup_inText t, inMarkup_inAttribute t, inString_quotedString t, inTemplate_inTemplate t,
    inText_eq_substituteEach t, inAttribute_eq_substituteEach t, quotedString_eq_substituteEach t,
    inTemplate_eq_substituteEach t⟩

end Escape

end Trellis
