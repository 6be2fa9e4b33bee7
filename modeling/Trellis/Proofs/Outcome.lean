import Mathlib.Data.List.TakeWhile
import Trellis.Compile

/-!
# How a compilation ends

A compilation gives output, or a failure of the parser, or a failure of the generator.  The parser fails exactly in
strict mode on a source with errors.  One thing is not turned into a result: a server whose port is given by digits
that are no number, and `compile_ends` says exactly when that happens.
-/

namespace Trellis

/-! ### Digits that are no number -/

namespace Text

theorem digitValue?_eq_none_iff (c : Char) : digitValue? c = none ↔ isDecimal c = false := by
  unfold digitValue? isDecimal
  simp only
  split
  · split <;> simp_all
  · simp [rangeStart?, inRanges]

/-- The value of digits when the ones read so far have the value `acc`. -/
theorem decimalValue_foldl_eq_none_iff (acc : Option Nat) (t : Text) :
    t.foldl (fun acc c => do return 10 * (← acc) + (← digitValue? c)) acc = none ↔
      acc = none ∨ ∃ c ∈ t, isDecimal c = false := by
  induction t generalizing acc with
  | nil => simp
  | cons c t ih =>
    rw [List.foldl_cons, ih]
    cases acc with
    | none => simp
    | some n =>
      cases hc : digitValue? c with
      | none => simp [(digitValue?_eq_none_iff c).mp hc]
      | some v =>
        have : isDecimal c ≠ false := fun h => by simp [(digitValue?_eq_none_iff c).mpr h] at hc
        simp [this]

theorem decimalValue?_eq_none_iff (t : Text) : decimalValue? t = none ↔ ∃ c ∈ t, isDecimal c = false := by
  unfold decimalValue?
  rw [decimalValue_foldl_eq_none_iff]
  simp

/-- A text is cut where a class of characters ends. -/
theorem span_exact {p : Char → Bool} {x y : Text} (hx : ∀ c ∈ x, p c = true) (hy : ∀ c ∈ y.head?, p c = false) :
    (x ++ y).takeWhile p = x ∧ (x ++ y).dropWhile p = y := by
  rw [List.takeWhile_append_of_pos hx, List.dropWhile_append_of_pos hx]
  cases y with
  | nil => simp
  | cons c y => simp [hy c rfl]

end Text

namespace Port

/-- Why digits are no number: too many decimal digits come first, or else one of the digits is not decimal. -/
inductive Unreadable (digits : Text) : DigitFault → Prop
  | tooLong (h : Text.maxDigits < (digits.takeWhile Text.isDecimal).length) :
    Unreadable digits (.tooLong (digits.takeWhile Text.isDecimal).length)
  | notDecimal (h : (digits.takeWhile Text.isDecimal).length ≤ Text.maxDigits) (c : Char) (hc : c ∈ digits)
    (hd : Text.isDecimal c = false) : Unreadable digits (.notDecimal digits)

/-- The declaration without blanks around it and without quotes. -/
def bareText (raw : Text) : Text := Text.trim (Value.unquote (Text.trim raw))

/-- A character of a host. -/
def isHostChar (c : Char) : Bool := Text.isWord c || c = '.' || c = '-'

/-- The text is a host, a colon and decimal digits, with an optional slash at the end. -/
def EndsInDigits (t digits : Text) : Prop :=
  ∃ host slash, t = host ++ ':' :: (digits ++ slash) ∧ (∀ c ∈ host, isHostChar c = true) ∧
    digits ≠ [] ∧ (∀ c ∈ digits, Text.isDecimal c = true) ∧ (slash = [] ∨ slash = ['/'])

/-- The declaration gives its port as digits: they are all of it, in the wide sense, or end it behind a host. -/
def DeclaresDigits (raw digits : Text) : Prop :=
  (bareText raw = digits ∧ digits ≠ [] ∧ ∀ c ∈ digits, Text.isDigit c = true) ∨ EndsInDigits (bareText raw) digits

theorem number?_eq_error_iff (digits : Text) (fault : DigitFault) :
    number? digits = .error fault ↔ Unreadable digits fault := by
  unfold number?
  simp only
  by_cases hl : (digits.takeWhile Text.isDecimal).length > Text.maxDigits
  · -- too many digits; the limit is looked at first
    rw [if_pos hl]
    constructor
    · intro h
      cases h
      exact .tooLong hl
    · intro h
      cases h with
      | tooLong => rfl
      | notDecimal hle => omega
  · rw [if_neg hl]
    cases hv : Text.decimalValue? digits with
    | some n =>
      -- every digit is decimal
      constructor
      · intro h
        cases h
      · intro h
        cases h with
        | tooLong hlt => omega
        | notDecimal _ c hc hd => simp [(Text.decimalValue?_eq_none_iff digits).mpr ⟨c, hc, hd⟩] at hv
    | none =>
      -- some digit is not decimal
      obtain ⟨c, hc, hd⟩ := (Text.decimalValue?_eq_none_iff digits).mp hv
      constructor
      · intro h
        cases h
        exact .notDecimal (by omega) c hc hd
      · intro h
        cases h with
        | tooLong hlt => omega
        | notDecimal => rfl

theorem hostPort?_eq_some_iff (t digits : Text) : hostPort? t = some digits ↔ EndsInDigits t digits := by
  have hsplit : t.takeWhile isHostChar ++ t.drop (t.takeWhile isHostChar).length = t :=
    List.prefix_iff_eq_append.mp (List.takeWhile_prefix _)
  have hhost : (fun c => Text.isWord c || c = '.' || c = '-') = isHostChar := rfl
  unfold hostPort?
  simp only [hhost]
  constructor
  · -- the longest start of host characters, a colon, digits, and at most a slash
    intro h
    split at h
    · rename_i r hr
      split at h
      · rename_i hcond
        cases h
        simp only [Bool.and_eq_true, Bool.not_eq_true', List.isEmpty_eq_false_iff, Bool.or_eq_true,
          decide_eq_true_eq] at hcond
        refine ⟨t.takeWhile isHostChar, r.dropWhile Text.isDecimal, ?_, fun c hc => ?_, hcond.1, fun c hc => ?_, hcond.2⟩
        · rw [List.takeWhile_append_dropWhile, ← hr]
          exact hsplit.symm
        · exact List.mem_takeWhile_imp hc
        · exact List.mem_takeWhile_imp hc
      · cases h
    · cases h
  · rintro ⟨host, slash, rfl, hhost, hne, hdigits, hslash⟩
    have hcut := Text.span_exact (y := ':' :: (digits ++ slash)) hhost (by intro c hc; cases hc; decide)
    -- the digits end at the slash or at the end of the text
    have hstop : ∀ c ∈ slash.head?, Text.isDecimal c = false := by
      rcases hslash with rfl | rfl
      · intro c hc; cases hc
      · intro c hc; cases hc; decide
    obtain ⟨hd, hs⟩ := Text.span_exact hdigits hstop
    rw [hcut.1, List.drop_left]
    simp [hd, hs, hne, hslash]

theorem check_ne_digits (raw : Text) (n : Nat) (fault : DigitFault) : check raw n ≠ .error (.digits fault) := by
  unfold check
  split <;> nofun

theorem ofDigits_eq_digits_iff (raw digits : Text) (fault : DigitFault) :
    ofDigits raw digits = .error (.digits fault) ↔ Unreadable digits fault := by
  rw [← number?_eq_error_iff]
  unfold ofDigits
  cases number? digits with
  | ok n => exact ⟨fun h => absurd h (check_ne_digits raw n fault), nofun⟩
  | error f => simp

/-- A declared port is no number exactly when its digits are none. -/
theorem derive_eq_digits_iff (declared : Option Text) (fault : DigitFault) :
    derive declared = .error (.digits fault) ↔
      ∃ raw digits, declared = some raw ∧ DeclaresDigits raw digits ∧ Unreadable digits fault := by
  cases declared with
  | none => simp [derive]
  | some raw =>
    simp only [Option.some.injEq, exists_and_left, exists_eq_left']
    unfold derive DeclaresDigits bareText
    simp only
    generalize Text.trim (Value.unquote (Text.trim raw)) = text
    -- a text with a host has a colon, so it is not all digits
    have hcolon : ∀ digits, EndsInDigits text digits → ¬ ∀ c ∈ text, Text.isDigit c = true := by
      rintro digits ⟨host, slash, ht, -⟩ hall
      have : Text.isDigit ':' = true := hall ':' (by rw [ht]; simp)
      exact absurd this (by decide)
    by_cases hall : (!text.isEmpty && text.all Text.isDigit) = true
    · rw [if_pos hall, ofDigits_eq_digits_iff]
      simp only [Bool.and_eq_true, Bool.not_eq_true', List.isEmpty_eq_false_iff, List.all_eq_true] at hall
      constructor
      · intro h
        exact ⟨text, .inl ⟨rfl, hall⟩, h⟩
      · rintro ⟨digits, ⟨rfl, -⟩ | hends, h⟩
        · exact h
        · exact absurd hall.2 (hcolon digits hends)
    · rw [if_neg hall]
      have hdeclares : ∀ digits, ((text = digits ∧ digits ≠ [] ∧ ∀ c ∈ digits, Text.isDigit c = true) ∨
          EndsInDigits text digits) ↔ hostPort? text = some digits := by
        intro digits
        rw [hostPort?_eq_some_iff]
        refine ⟨?_, .inr⟩
        rintro (⟨rfl, hne, hdigits⟩ | hends)
        · exact absurd (by simpa [hne] using hdigits) hall
        · exact hends
      simp only [hdeclares]
      cases hh : hostPort? text with
      | some digits => simp [ofDigits_eq_digits_iff]
      | none =>
        simp only [reduceCtorEq, false_and, exists_false, iff_false]
        intro h
        split at h
        · split at h
          · cases h
          · cases h
          · exact absurd h (check_ne_digits _ _ fault)
        · split at h <;> cases h

end Port

/-! ### Generating -/

theorem ServerModule.portOf_eq_digits_iff (s : Server) (fault : DigitFault) :
    portOf s = .error (.digits fault) ↔ Port.derive s.port = .error (.digits fault) := by
  unfold portOf
  cases Port.derive s.port with
  | ok p => exact ⟨nofun, nofun⟩
  | error f => cases f <;> simp [PortFault.toFailure]

theorem ServerModule.portOf_failure_kind {s : Server} {f : Failure} (h : portOf s = .error (.failed f)) :
    f.kind = .generator := by
  unfold portOf at h
  cases hp : Port.derive s.port with
  | ok p => rw [hp] at h; cases h
  | error g =>
    rw [hp] at h
    cases g <;> cases h <;> rfl

namespace Document

variable {path : Option Text} {d : Document}

/-- The server of the document declares a port whose digits are no number. -/
def BadPort (d : Document) (fault : DigitFault) : Prop :=
  ∃ s raw digits, d.script.server = some s ∧ s.port = some raw ∧ Port.DeclaresDigits raw digits ∧
    Port.Unreadable digits fault

/-- With a server, the port is looked at first, and then the routes. -/
theorem generate_server {s : Server} (hs : d.script.server = some s) :
    d.generate path = match ServerModule.portOf s with
      | .error e => .error e
      | .ok port => match ServerModule.repeatedRoute? [] s.routes with
        | some r => .error (.failed (ServerModule.repeatedFailure r))
        | none => .ok (CodeLine.renderAll indentSize (ServerModule.moduleLines path s port) ++ "\n") := by
  unfold generate ServerModule.generate
  rw [hs]
  simp only [Option.isSome_some, if_true]
  cases ServerModule.portOf s <;> rfl

theorem generate_component (hs : d.script.server = none) :
    d.generate path = .ok (Component.generate path indentSize d) := by
  unfold generate
  rw [hs]
  rfl

theorem generate_eq_digits_iff (path : Option Text) (d : Document) (fault : DigitFault) :
    d.generate path = .error (.digits fault) ↔ d.BadPort fault := by
  cases hs : d.script.server with
  | none =>
    rw [generate_component hs]
    exact ⟨nofun, fun ⟨_, _, _, h, _⟩ => nomatch hs.symm.trans h⟩
  | some s =>
    have hbad : d.BadPort fault ↔ ServerModule.portOf s = .error (.digits fault) := by
      rw [ServerModule.portOf_eq_digits_iff, Port.derive_eq_digits_iff]
      simp [BadPort, hs]
    rw [hbad, generate_server hs]
    cases ServerModule.portOf s with
    | error e => simp
    | ok port => cases ServerModule.repeatedRoute? [] s.routes <;> exact ⟨nofun, nofun⟩

theorem generate_failure_kind {f : Failure} (h : d.generate path = .error (.failed f)) : f.kind = .generator := by
  cases hs : d.script.server with
  | none => rw [generate_component hs] at h; cases h
  | some s =>
    rw [generate_server hs] at h
    cases hp : ServerModule.portOf s with
    | error e =>
      rw [hp] at h
      cases h
      exact ServerModule.portOf_failure_kind hp
    | ok port =>
      rw [hp] at h
      simp only at h
      split at h <;> cases h
      rfl

/-! ### Strict mode -/

theorem strictFailure?_eq_none_iff (path : Option Text) (ds : List Diagnostic) :
    strictFailure? path ds = none ↔ Diagnostic.errors ds = [] := by
  unfold strictFailure?
  cases Diagnostic.errors ds <;> simp

theorem strictFailure?_kind {ds : List Diagnostic} {f : Failure} (h : strictFailure? path ds = some f) :
    f.kind = .parser := by
  unfold strictFailure? at h
  cases hs : Diagnostic.errors ds with
  | nil => rw [hs] at h; cases h
  | cons first rest => rw [hs] at h; cases h; rfl

/-- A strict compilation of a source with errors. -/
def Refused (strict : Bool) (d : Document) : Prop := strict = true ∧ Diagnostic.errors d.diagnostics ≠ []

/-- A document that is refused. -/
theorem compile_of_refused {strict : Bool} (path : Option Text) (h : d.Refused strict) :
    ∃ f, f.kind = .parser ∧ d.compile path strict =
      .ok { output := [], suffix := d.outputSuffix, diagnostics := d.diagnostics, error := some f } := by
  obtain ⟨rfl, herrors⟩ := h
  obtain ⟨f, hf⟩ := Option.ne_none_iff_exists'.mp fun h => herrors ((strictFailure?_eq_none_iff path _).mp h)
  refine ⟨f, strictFailure?_kind hf, ?_⟩
  unfold compile
  simp only [if_true, hf]

/-- Any other document is generated. -/
theorem compile_of_not_refused {strict : Bool} (path : Option Text) (h : ¬ d.Refused strict) :
    d.compile path strict = match d.generate path with
      | .ok output => .ok { output := output, suffix := d.outputSuffix, diagnostics := d.diagnostics }
      | .error (.failed f) =>
        .ok { output := [], suffix := d.outputSuffix, diagnostics := d.diagnostics, error := some f }
      | .error (.digits fault) => .error fault := by
  have hnone : (if strict then strictFailure? path d.diagnostics else none) = none := by
    cases strict with
    | false => rfl
    | true =>
      refine (strictFailure?_eq_none_iff path _).mpr (Classical.byContradiction fun herrors => h ⟨rfl, herrors⟩)
  unfold compile
  cases d.generate path with
  | ok output => simp only [hnone]
  | error e => cases e <;> simp only [hnone]

/-- A compilation gives no result exactly when the document is generated and its port cannot be read. -/
theorem compile_eq_error_iff (path : Option Text) (strict : Bool) (d : Document) (fault : DigitFault) :
    d.compile path strict = .error fault ↔ ¬ d.Refused strict ∧ d.BadPort fault := by
  by_cases h : d.Refused strict
  · obtain ⟨f, -, hcompile⟩ := compile_of_refused path h
    rw [hcompile]
    simp [h]
  · rw [compile_of_not_refused path h, ← generate_eq_digits_iff path]
    cases d.generate path with
    | ok output => simp
    | error e => cases e <;> simp [h]

theorem not_refused_lenient (d : Document) : ¬ d.Refused false := fun h => Bool.false_ne_true h.1

/-- What the result for a document that is not refused carries: its diagnostics, and the failure of the generator. -/
theorem result_of_not_refused {strict : Bool} {c : Compilation} (hn : ¬ d.Refused strict)
    (h : d.compile path strict = .ok c) :
    c.diagnostics = d.diagnostics ∧
      ((∃ output, d.generate path = .ok output ∧ c.error = none) ∨
        ∃ f, d.generate path = .error (.failed f) ∧ c.error = some f) := by
  rw [compile_of_not_refused path hn] at h
  cases hgen : d.generate path with
  | ok output =>
    rw [hgen] at h
    obtain rfl := Except.ok.inj h
    exact ⟨rfl, .inl ⟨output, rfl, rfl⟩⟩
  | error e =>
    rw [hgen] at h
    cases e with
    | failed f =>
      obtain rfl := Except.ok.inj h
      exact ⟨rfl, .inr ⟨f, rfl, rfl⟩⟩
    | digits fault => cases h

theorem suffix_of_compile {strict : Bool} {c : Compilation}
    (h : d.compile path strict = .ok c) : c.suffix = d.outputSuffix := by
  by_cases hrefused : d.Refused strict
  · obtain ⟨f, -, hf⟩ := compile_of_refused path hrefused
    obtain rfl := Except.ok.inj (hf.symm.trans h)
    rfl
  · rw [compile_of_not_refused path hrefused] at h
    cases hgen : d.generate path with
    | ok output =>
      rw [hgen] at h
      obtain rfl := Except.ok.inj h
      rfl
    | error e =>
      rw [hgen] at h
      cases e with
      | failed f =>
        obtain rfl := Except.ok.inj h
        rfl
      | digits fault => cases h

theorem generate_of_success {strict : Bool} {c : Compilation} (h : d.compile path strict = .ok c)
    (hsuccess : c.success = true) : d.generate path = .ok c.output := by
  by_cases hrefused : d.Refused strict
  · obtain ⟨f, -, hf⟩ := compile_of_refused path hrefused
    obtain rfl := Except.ok.inj (hf.symm.trans h)
    cases hsuccess
  · rw [compile_of_not_refused path hrefused] at h
    cases hgen : d.generate path with
    | ok output =>
      rw [hgen] at h
      obtain rfl := Except.ok.inj h
      rfl
    | error e =>
      rw [hgen] at h
      cases e with
      | failed f =>
        obtain rfl := Except.ok.inj h
        cases hsuccess
      | digits fault => cases h

end Document

namespace Compilation

/-- How a compilation of the document `d` ends that gives a result. -/
inductive Ends (path : Option Text) (strict : Bool) (d : Document) (c : Compilation) : Prop
  | output (h : ¬ d.Refused strict) (success : c.success = true) (error : c.error = none)
    (output : d.generate path = .ok c.output)
  | parser (h : d.Refused strict) (success : c.success = false) (output : c.output = [])
    (error : ∃ f, c.error = some f ∧ f.kind = .parser)
  | generator (h : ¬ d.Refused strict) (success : c.success = false) (output : c.output = [])
    (error : ∃ f, c.error = some f ∧ f.kind = .generator)

end Compilation

/-- **How a compilation ends.**  It gives no result exactly when the source is not refused and the port of its server is
given by digits that are no number.  A result is that of the document: it has the generated output and no error, or
no output and the error of the parser, exactly when the source is refused, or of the generator. -/
theorem compile_ends (path : Option Text) (strict : Bool) (source : Text) :
    (∀ fault, compile path strict source = .error fault ↔
      ¬ (Document.read path source).Refused strict ∧ (Document.read path source).BadPort fault) ∧
    ∀ c, compile path strict source = .ok c → c.Ends path strict (Document.read path source) := by
  unfold compile
  generalize Document.read path source = d
  by_cases hr : d.Refused strict
  · -- a refused source is not generated from
    obtain ⟨f, hkind, hc⟩ := Document.compile_of_refused path hr
    rw [hc]
    refine ⟨fun fault => ⟨nofun, fun h => absurd hr h.1⟩, fun c h => ?_⟩
    cases h
    exact .parser hr rfl rfl ⟨f, rfl, hkind⟩
  · -- otherwise the compilation ends as the generator does
    rw [Document.compile_of_not_refused path hr]
    constructor
    · intro fault
      rw [← Document.generate_eq_digits_iff path]
      cases d.generate path with
      | ok output => simp
      | error e => cases e <;> simp [hr]
    · intro c h
      cases hg : d.generate path with
      | ok output =>
        rw [hg] at h
        cases h
        exact .output hr rfl rfl hg
      | error e =>
        rw [hg] at h
        cases e with
        | failed f =>
          cases h
          exact .generator hr rfl rfl ⟨f, rfl, Document.generate_failure_kind hg⟩
        | digits fault => cases h

/-- Compiling does not always give a result: a superscript is a digit, and no number. -/
theorem compile_superscript_port : compile none false "server A: ²" = .error (.notDecimal "²") := by
  rfl

end Trellis
