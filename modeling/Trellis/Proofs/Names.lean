import Trellis.Command.Machine
import Trellis.Proofs.Outcome

/-!
# Names and texts

A name has bytes exactly when it is a text (`Name.encode_eq_error_iff`).  The output of a compilation starts with a header
that shows the name of its source (`Compilation.output_header`), so what is written of it has bytes exactly when that
name is a text, whatever else the output holds.
-/

namespace Trellis

/-! ### Bytes of a name -/

namespace Name

variable {n : Name} {f : Fault}

@[simp] theorem ofText_nil : ofText [] = [] := rfl

@[simp] theorem ofText_cons (c : Char) (t : Text) : ofText (c :: t) = .char c :: ofText t := rfl

@[simp] theorem ofText_append (s t : Text) : ofText (s ++ t) = ofText s ++ ofText t := List.map_append

@[simp] theorem isText_ofText (t : Text) : (ofText t).isText = true := by
  unfold isText ofText
  simp [Glyph.isChar]

theorem isText_append (a b : Name) : isText (a ++ b) = (isText a && isText b) := List.all_append

@[simp] theorem shown_append (a b : Name) : shown (a ++ b) = shown a ++ shown b := List.flatMap_append

@[simp] theorem shown_ofText (t : Text) : (ofText t).shown = t := by
  induction t with
  | nil => rfl
  | cons c t ih => rw [ofText_cons, shown, List.flatMap_cons, ← shown, ih]; rfl

theorem exists_of_isText (h : n.isText = true) : ∃ t : Text, n = ofText t := by
  induction n with
  | nil => exact ⟨[], rfl⟩
  | cons g n ih =>
    cases g with
    | stray low => cases h
    | char c =>
      obtain ⟨t, rfl⟩ := ih h
      exact ⟨c :: t, rfl⟩

theorem encodeFrom_ofText (position : Nat) (t : Text) : encodeFrom position (ofText t) = .ok (Utf8.encode t) := by
  induction t generalizing position with
  | nil => rfl
  | cons c t ih =>
    rw [ofText_cons, encodeFrom, ih]
    rfl

@[simp] theorem encode_ofText (t : Text) : (ofText t).encode = .ok (Utf8.encode t) := encodeFrom_ofText 0 t

theorem encodeFrom_of_not_isText (position : Nat) (h : n.isText = false) : ∃ f, encodeFrom position n = .error f := by
  induction n generalizing position with
  | nil => cases h
  | cons g n ih =>
    cases g with
    | stray low => exact ⟨_, rfl⟩
    | char c =>
      obtain ⟨f, hf⟩ := ih (position + 1) h
      exact ⟨f, by rw [encodeFrom, hf]; rfl⟩

theorem encode_of_not_isText (h : n.isText = false) : ∃ f, n.encode = .error f := encodeFrom_of_not_isText 0 h

/-- **A name has bytes** exactly when it is a text. -/
theorem encode_eq_error_iff : (∃ f, n.encode = .error f) ↔ n.isText = false := by
  refine ⟨?_, encode_of_not_isText⟩
  rintro ⟨f, hf⟩
  cases htext : n.isText with
  | false => rfl
  | true =>
    obtain ⟨t, rfl⟩ := exists_of_isText htext
    rw [encode_ofText] at hf
    cases hf

end Name

namespace Command.Machine

variable {m : Machine} {n : Name}

/-- The machine prints the text: its output is not strict, or the text has bytes. -/
def Prints (m : Machine) (n : Name) : Prop := m.strictOutput = true → n.isText = true

instance (m : Machine) (n : Name) : Decidable (m.Prints n) :=
  inferInstanceAs (Decidable (m.strictOutput = true → n.isText = true))

theorem prints_ofText (m : Machine) (t : Text) : m.Prints (Name.ofText t) := fun _ => Name.isText_ofText t

theorem prints_append {a b : Name} : m.Prints (a ++ b) ↔ m.Prints a ∧ m.Prints b := by
  unfold Prints
  rw [Name.isText_append, Bool.and_eq_true, imp_and]

theorem refusal?_of_prints (h : m.Prints n) : m.refusal? n = none := by
  unfold refusal?
  cases hstrict : m.strictOutput with
  | false => rfl
  | true =>
    obtain ⟨t, rfl⟩ := Name.exists_of_isText (h hstrict)
    rw [Name.encode_ofText]

theorem refusal?_of_not_prints (h : ¬ m.Prints n) : ∃ f, m.refusal? n = some (.encoding f) := by
  unfold Prints at h
  obtain ⟨hstrict, htext⟩ : m.strictOutput = true ∧ n.isText = false := by simpa using h
  obtain ⟨f, hf⟩ := Name.encode_of_not_isText htext
  exact ⟨f, by rw [refusal?, hstrict, hf]⟩

end Command.Machine

namespace Compilation

variable {c : Compilation} {name : Name}

theorem written_of_isText (c : Compilation) (h : name.isText = true) : c.written name = Name.ofText c.output := if_pos h

/-- **What is written of an output** has bytes exactly when the name of its source is a text. -/
theorem isText_written (c : Compilation) (name : Name) : (c.written name).isText = name.isText := by
  cases h : name.isText with
  | true => rw [written_of_isText c h, Name.isText_ofText]
  | false =>
    unfold written
    rw [h, if_neg Bool.false_ne_true, Name.isText_append, Name.isText_append, h, Bool.and_false, Bool.false_and]

end Compilation

/-! ### The last component of a path -/

namespace Text

variable {α : Type} [DecidableEq α] {sep : α} {t : List α}

theorem splitAt_of_not_mem (h : sep ∉ t) : splitAt sep t = [t] := by
  induction t with
  | nil => rfl
  | cons c t ih =>
    obtain ⟨hc, ht⟩ := List.ne_and_not_mem_of_not_mem_cons h
    rw [splitAt, if_neg (Ne.symm hc), ih ht]

theorem splitAt_append (h : sep ∉ t) (rest : List α) : splitAt sep (t ++ sep :: rest) = t :: splitAt sep rest := by
  induction t with
  | nil => rw [List.nil_append, splitAt, if_pos rfl]
  | cons c t ih =>
    obtain ⟨hc, ht⟩ := List.ne_and_not_mem_of_not_mem_cons h
    rw [List.cons_append, splitAt, if_neg (Ne.symm hc), ih ht]

theorem exists_splitAt (x : List α) (h : sep ∉ t) : ∃ ps, splitAt sep (x ++ sep :: t) = ps ++ [t] ∧ ps ≠ [] := by
  induction x with
  | nil => exact ⟨[[]], by rw [List.nil_append, splitAt, if_pos rfl, splitAt_of_not_mem h]; rfl, by simp⟩
  | cons c x ih =>
    obtain ⟨ps, hsplit, hne⟩ := ih
    obtain ⟨p, ps, rfl⟩ := List.exists_cons_of_ne_nil hne
    rw [List.cons_append, splitAt, hsplit]
    split
    · exact ⟨[] :: p :: ps, rfl, by simp⟩
    · exact ⟨(c :: p) :: ps, rfl, by simp⟩

theorem not_mem_of_mem_splitAt {p : List α} (h : p ∈ splitAt sep t) : sep ∉ p := by
  induction t generalizing p with
  | nil =>
    obtain rfl := List.mem_singleton.mp h
    exact List.not_mem_nil
  | cons c t ih =>
    rw [splitAt] at h
    split at h
    · rcases List.mem_cons.mp h with rfl | h
      · exact List.not_mem_nil
      · exact ih h
    · next hc =>
      split at h
      · next hnil =>
        obtain rfl := List.mem_singleton.mp h
        simpa using Ne.symm hc
      · -- the character goes before the first piece of the rest
        next q qs hcons =>
        rw [hcons] at ih
        rcases List.mem_cons.mp h with rfl | h
        · have hq : sep ∉ q := ih List.mem_cons_self
          simpa [hq] using Ne.symm hc
        · exact ih (List.mem_cons_of_mem _ h)

theorem hexDigit_ne_slash {d : Nat} (h : d < 16) : hexDigit d ≠ '/' := by
  have hall : (List.range 16).all (fun d => hexDigit d ≠ '/') = true := by decide
  simpa using List.all_eq_true.mp hall d (List.mem_range.mpr h)

theorem slash_not_mem_hexDigits (w n : Nat) : '/' ∉ hexDigits w n := by
  induction w generalizing n with
  | zero => exact List.not_mem_nil
  | succ w ih =>
    rw [hexDigits, List.mem_append, not_or]
    exact ⟨ih _, fun h => hexDigit_ne_slash (Nat.mod_lt _ (by decide)) (List.mem_singleton.mp h).symm⟩

end Text

namespace Name

variable {n : Name}

theorem shown_cons (g : Glyph) (n : Name) : shown (g :: n) = g.shown ++ shown n := List.flatMap_cons

theorem shown_ne_nil (h : n ≠ []) : n.shown ≠ [] := by
  obtain ⟨g, n, rfl⟩ := List.exists_cons_of_ne_nil h
  rw [shown_cons]
  cases g with
  | char c => simp [Glyph.shown]
  | stray low => simp [Glyph.shown, Glyph.escape]

theorem shown_eq_dot (h : n.shown = ['.']) : n = [.char '.'] := by
  cases n with
  | nil => cases h
  | cons g n =>
    rw [shown_cons] at h
    cases g with
    | stray low => cases h
    | char c =>
      obtain ⟨rfl, hrest⟩ := List.cons.inj h
      have hnil : n = [] := Classical.byContradiction fun hne => shown_ne_nil hne hrest
      rw [hnil]

theorem slash_not_mem_shown (h : .char '/' ∉ n) : '/' ∉ n.shown := by
  induction n with
  | nil => exact List.not_mem_nil
  | cons g n ih =>
    obtain ⟨hg, hn⟩ := List.ne_and_not_mem_of_not_mem_cons h
    rw [shown_cons, List.mem_append, not_or]
    refine ⟨?_, ih hn⟩
    cases g with
    | char c =>
      intro hc
      exact hg (congrArg Glyph.char (List.mem_singleton.mp hc))
    | stray low =>
      intro hlow
      rcases List.mem_append.mp hlow with hlead | hdigits
      · exact absurd hlead (by decide)
      · exact Text.slash_not_mem_hexDigits _ _ hdigits

theorem char_mem_ofText {c : Char} {t : Text} : .char c ∈ ofText t ↔ c ∈ t := by
  unfold ofText
  simp

end Name

namespace Path

variable {n part x : Name}

/-- A component of a path that was read. -/
def IsPart (part : Name) : Prop := isComponent part = true ∧ .char '/' ∉ part

theorem isPart_of_mem_ofName (h : part ∈ (ofName n).parts) : IsPart part := by
  obtain ⟨hmem, hkept⟩ := List.mem_filter.mp h
  exact ⟨hkept, Text.not_mem_of_mem_splitAt hmem⟩

theorem IsPart.shown (h : IsPart part) : IsPart (Name.ofText part.shown) := by
  obtain ⟨hkept, hslash⟩ := h
  have hparts : part ≠ [] ∧ part ≠ [.char '.'] := by simpa [isComponent] using hkept
  refine ⟨?_, fun hmem => Name.slash_not_mem_shown hslash (Name.char_mem_ofText.mp hmem)⟩
  have hne : Name.ofText part.shown ≠ [] := fun hnil => Name.shown_ne_nil hparts.1 (List.map_eq_nil_iff.mp hnil)
  have hdot : Name.ofText part.shown ≠ [.char '.'] := by
    intro heq
    refine hparts.2 (Name.shown_eq_dot ?_)
    rw [← Name.shown_ofText part.shown, heq]
    rfl
  simp [isComponent, hne, hdot]

/-- Behind a slash, or alone, a component is the last one of the path. -/
theorem name_ofName (h : IsPart part) (hx : x = [] ∨ ∃ y, x = y ++ [.char '/']) : (ofName (x ++ part)).name = part := by
  have hlast : ∀ ps : List Name, ((ps ++ [part]).filter isComponent).getLastD [] = part := by
    intro ps
    rw [List.filter_append, List.filter_cons_of_pos h.1]
    exact List.getLastD_concat
  unfold name ofName
  rcases hx with rfl | ⟨y, rfl⟩
  · rw [List.nil_append, Text.splitAt_of_not_mem h.2]
    exact hlast []
  · obtain ⟨ps, hsplit, -⟩ := Text.exists_splitAt y h.2
    rw [List.append_assoc, List.singleton_append, hsplit]
    exact hlast ps

theorem join_concat (sep : Name) (parts : List Name) (part : Name) :
    Name.join sep (parts ++ [part]) = part ∧ parts = [] ∨ ∃ y, Name.join sep (parts ++ [part]) = y ++ sep ++ part := by
  induction parts with
  | nil => exact .inl ⟨by simp [Name.join], rfl⟩
  | cons p ps ih =>
    right
    unfold Name.join at ih ⊢
    rcases ih with ⟨hjoin, rfl⟩ | ⟨y, hjoin⟩
    · exact ⟨p, by simp⟩
    · obtain ⟨q, qs, hcons⟩ := List.exists_cons_of_ne_nil (List.concat_ne_nil part ps)
      refine ⟨p ++ sep ++ y, ?_⟩
      rw [List.cons_append, hcons, List.intercalate_cons_cons, ← hcons, hjoin]
      simp

theorem root_ofName (n : Name) : (ofName n).root = [] ∨ (ofName n).root = "/" ∨ (ofName n).root = "//" := by
  unfold ofName
  simp only
  split
  · exact .inl rfl
  · split
    · exact .inr (.inr rfl)
    · exact .inr (.inl rfl)

/-- A path that was read is written as a root alone, or as its last component behind nothing or a slash. -/
theorem written_ofName (n : Name) :
    ((ofName n).name = [] ∧ (ofName n).toText ∈ ([".", "/", "//"] : List Text)) ∨
      IsPart (ofName n).name ∧
        ∃ x : Name, (ofName n).written = x ++ (ofName n).name ∧ (x = [] ∨ ∃ y : Name, x = y ++ [.char '/']) := by
  have hroot := root_ofName n
  have hpart : ∀ part ∈ (ofName n).parts, IsPart part := fun _ => isPart_of_mem_ofName
  generalize ofName n = p at hroot hpart ⊢
  rcases List.eq_nil_or_concat p.parts with hnil | ⟨init, part, hparts⟩
  · left
    unfold toText written name
    rw [hnil]
    rcases hroot with h | h | h <;> rw [h] <;> decide
  · right
    rw [List.concat_eq_append] at hparts
    have hname : p.name = part := by rw [name, hparts, List.getLastD_concat]
    have hwritten : p.written = Name.ofText p.root ++ Name.join [.char '/'] (init ++ [part]) := by
      unfold written
      rw [hparts, if_neg (by simp)]
    rw [hname]
    refine ⟨hpart part (by simp [hparts]), ?_⟩
    rcases join_concat [.char '/'] init part with ⟨hjoin, -⟩ | ⟨y, hjoin⟩
    · -- one component, right behind the root
      refine ⟨Name.ofText p.root, by rw [hwritten, hjoin], ?_⟩
      rcases hroot with h | h | h <;> rw [h]
      · exact .inl rfl
      · exact .inr ⟨[], rfl⟩
      · exact .inr ⟨[.char '/'], rfl⟩
    · refine ⟨Name.ofText p.root ++ y ++ [.char '/'], ?_, .inr ⟨_, rfl⟩⟩
      rw [hwritten, hjoin]
      simp only [List.append_assoc]

/-- A path that was read, shown and read again has the same last component, as it is shown. -/
theorem name_ofName_toText (n : Name) :
    (ofName (Name.ofText (ofName n).toText)).name = Name.ofText (ofName n).name.shown := by
  rcases written_ofName n with ⟨hname, hroot⟩ | ⟨hpart, x, hwritten, hx⟩
  · rw [hname]
    simp only [List.mem_cons, List.not_mem_nil, or_false] at hroot
    rcases hroot with h | h | h <;> rw [h] <;> rfl
  · rw [toText, hwritten, Name.shown_append, Name.ofText_append]
    refine name_ofName hpart.shown ?_
    rcases hx with rfl | ⟨y, rfl⟩
    · exact .inl rfl
    · exact .inr ⟨Name.ofText y.shown, by rw [Name.shown_append, Name.ofText_append]; rfl⟩

theorem toText_ofName_ne_nil (n : Name) : (ofName n).toText ≠ [] := by
  rcases written_ofName n with ⟨-, hroot⟩ | ⟨hpart, x, hwritten, -⟩
  · intro hnil
    rw [hnil] at hroot
    exact absurd hroot (by decide)
  · have hne : (ofName n).name ≠ [] := by
      intro hnil
      rw [hnil] at hpart
      exact absurd hpart.1 (by decide)
    rw [toText, hwritten]
    exact Name.shown_ne_nil (List.append_ne_nil_of_right_ne_nil x hne)

end Path

/-! ### The header of an output -/

theorem Text.join_eq_append (sep t : Text) (ts : List Text) : ∃ rest, Text.join sep (t :: ts) = t ++ rest := by
  unfold Text.join
  cases ts with
  | nil => exact ⟨[], by simp⟩
  | cons u ts => exact ⟨sep ++ sep.intercalate (u :: ts), by rw [List.intercalate_cons_cons, List.append_assoc]⟩

theorem Component.generate_header {path : Option Text} {name : Text} (hname : headerName? path = some name)
    (size : Nat) (d : Document) : ∃ rest, generate path size d = headerLead ++ (name ++ rest) := by
  unfold generate
  rw [hname]
  simp only [Option.toList_some, List.map_cons, List.map_nil, List.cons_append]
  obtain ⟨rest, hrest⟩ := Text.join_eq_append "\n\n" (header name) (_ : List Text)
  exact ⟨" -->" ++ (rest ++ "\n"), by rw [hrest]; simp [header]⟩

theorem ServerModule.renderAll_header {path : Option Text} {name : Text}
    (hname : Component.headerName? path = some name) (size : Nat) (s : Server) (port : Port) :
    ∃ rest, CodeLine.renderAll size (moduleLines path s port) = headerLead ++ (name ++ rest) := by
  have hline : CodeLine.render size ⟨0, headerLead ++ name⟩ = headerLead ++ name := by
    unfold CodeLine.render
    rw [if_neg, Nat.zero_mul]
    · rfl
    · rw [List.isEmpty_iff]
      exact List.append_ne_nil_of_left_ne_nil (by decide) name
  unfold moduleLines CodeLine.renderAll Text.unlines
  rw [hname]
  simp only [Option.toList_some, List.map_cons, List.map_nil, List.cons_append, hline]
  obtain ⟨rest, hrest⟩ := Text.join_eq_append ['\n'] (headerLead ++ name) (_ : List Text)
  exact ⟨rest, by rw [hrest, List.append_assoc]⟩

/-- **The header of an output** shows the name of its source. -/
theorem Compilation.output_header {n : Name} {strict : Bool} {source : Text} {c : Compilation}
    (h : compile (some (Path.ofName n).toText) strict source = .ok c) (hsuccess : c.success = true) :
    ∃ rest, c.output = c.headerLead ++ ((Path.ofName n).name.shown ++ rest) := by
  have hname : Component.headerName? (some (Path.ofName n).toText) = some (Path.ofName n).name.shown := by
    obtain ⟨a, t, htext⟩ := List.exists_cons_of_ne_nil (Path.toText_ofName_ne_nil n)
    have hread := Path.name_ofName_toText n
    rw [htext] at hread ⊢
    show some (Path.ofName (Name.ofText (a :: t))).name.shown = _
    rw [hread, Name.shown_ofText]
  unfold compile at h
  have hgenerate := Document.generate_of_success h hsuccess
  have hsuffix := Document.suffix_of_compile h
  unfold headerLead
  rw [hsuffix, Document.outputSuffix]
  cases hserver : (Document.read (some (Path.ofName n).toText) source).script.server with
  | none =>
    -- a component
    rw [Document.generate_component hserver] at hgenerate
    rw [← Except.ok.inj hgenerate]
    exact Component.generate_header hname _ _
  | some s =>
    -- a server module, if its port and its routes are accepted
    rw [Document.generate_server hserver] at hgenerate
    cases hport : ServerModule.portOf s with
    | error e =>
      rw [hport] at hgenerate
      cases hgenerate
    | ok port =>
      rw [hport] at hgenerate
      cases hroute : ServerModule.repeatedRoute? [] s.routes with
      | some r =>
        rw [hroute] at hgenerate
        cases hgenerate
      | none =>
        rw [hroute] at hgenerate
        obtain ⟨rest, hrest⟩ := ServerModule.renderAll_header hname Document.indentSize s port
        refine ⟨rest ++ "\n", ?_⟩
        rw [← Except.ok.inj hgenerate, hrest]
        simp

/-- What is written of an output is the output: only its header has the name itself. -/
theorem Compilation.shown_written {n : Name} {strict : Bool} {source : Text} {c : Compilation}
    (h : compile (some (Path.ofName n).toText) strict source = .ok c) (hsuccess : c.success = true) :
    (c.written (Path.ofName n).name).shown = c.output := by
  obtain ⟨rest, hrest⟩ := output_header h hsuccess
  unfold written
  split
  · exact Name.shown_ofText _
  · rw [Name.shown_append, Name.shown_append, Name.shown_ofText, Name.shown_ofText, hrest, ← List.append_assoc,
      ← List.length_append, List.drop_left]

end Trellis
