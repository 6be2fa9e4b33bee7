import Trellis.Proofs.Outcome
import Trellis.Proofs.StateOrder
import Trellis.Proofs.Trimming

/-!
# Spellings of a port

A port is declared as a number, behind a host, or in a URL, each possibly in quotes (`Spelling`).  However it is
spelled, the declaration gives the number when it is a port, and else the generator fails (`derive_spelling`).  Three
readers agree on this: that of digits (`settles_ofDigits`), that of digits behind a host, which takes no URL
(`hostPort?_address`, `hostPort?_url`), and that of URLs (`port_url`).
-/

namespace Trellis

/-! ### Cutting and searching texts -/

namespace Text

theorem cut?_append {α : Type} [DecidableEq α] {c : α} {s : List α} (h : c ∉ s) (r : List α) :
    cut? c (s ++ c :: r) = some (s, r) := by
  induction s with
  | nil => simp [cut?]
  | cons d s ih =>
    rw [List.mem_cons, not_or] at h
    rw [List.cons_append, cut?, if_neg (Ne.symm h.1), ih h.2]
    rfl

theorem cut?_eq_none {c : Char} {t : Text} (h : c ∉ t) : cut? c t = none := by
  induction t with
  | nil => rfl
  | cons d t ih =>
    rw [List.mem_cons, not_or] at h
    rw [cut?, if_neg (Ne.symm h.1), ih h.2]
    rfl

theorem occursIn_append (s p r : Text) : occursIn p (s ++ (p ++ r)) = true := by
  have hstart : startsWith (p ++ r) p = true := by
    rw [startsWith, after?_eq_some_iff.mpr rfl]
    rfl
  induction s with
  | nil =>
    rw [List.nil_append]
    cases hp : p ++ r with
    | nil =>
      rw [occursIn, (List.append_eq_nil_iff.mp hp).1]
      rfl
    | cons c t => rw [occursIn, ← hp, hstart, Bool.true_or]
  | cons c s ih => rw [List.cons_append, occursIn, ih, Bool.or_true]

/-! ### Decimal digits -/

theorem digitValue?_of_isAsciiDigit {c : Char} (h : isAsciiDigit c = true) :
    digitValue? c = some (c.toNat - '0'.toNat) := by
  simp only [isAsciiDigit, Bool.and_eq_true, decide_eq_true_eq] at h
  unfold digitValue?
  rw [if_pos (by omega), if_pos (by simp [h])]
  rfl

theorem isDecimal_of_isAsciiDigit {c : Char} (h : isAsciiDigit c = true) : isDecimal c = true := by
  rw [← Bool.not_eq_false, ← digitValue?_eq_none_iff, digitValue?_of_isAsciiDigit h]
  exact Option.some_ne_none _

theorem decimalValue?_of_isAsciiDigit {t : Text} (h : ∀ c ∈ t, isAsciiDigit c = true) :
    decimalValue? t = some (Nat.ofDigitChars 10 t 0) := by
  have hfrom : ∀ n, t.foldl (fun acc c => do return 10 * (← acc) + (← digitValue? c)) (some n) =
      some (Nat.ofDigitChars 10 t n) := by
    induction t with
    | nil => exact fun n => rfl
    | cons c t ih =>
      obtain ⟨hc, ht⟩ := List.forall_mem_cons.mp h
      intro n
      rw [List.foldl_cons, digitValue?_of_isAsciiDigit hc, Nat.ofDigitChars_cons]
      exact ih ht _
  exact hfrom 0

end Text

namespace Port

/-! ### Spellings -/

/-- A text that is not empty, with all its characters in a class. -/
structure Word (p : Char → Bool) where
  text : Text
  notEmpty : text ≠ []
  all : ∀ c ∈ text, p c = true

/-- ASCII digits that are read as a number. -/
structure Digits extends Word Text.isAsciiDigit where
  accepted : ∃ v, number? text = .ok v

/-- The number that digits stand for. -/
def Digits.value (n : Digits) : Nat := Nat.ofDigitChars 10 n.text 0

/-- An ASCII letter or digit, a point or a hyphen. -/
def isAsciiHostChar (c : Char) : Bool := Text.isAsciiLetter c || Text.isAsciiDigit c || c = '.' || c = '-'

/-- How a port is spelled: by its number alone, behind a host, or in a URL; in the last two a slash may follow. -/
inductive Spelling where
  | number
  | address (host : Word isAsciiHostChar) (slash : Bool)
  | url (scheme : Word Text.isAsciiLetter) (host : Word isAsciiHostChar) (slash : Bool)

/-- The host, a colon and the digits, and possibly a slash. -/
def addressText (n : Digits) (host : Word isAsciiHostChar) (slash : Bool) : Text :=
  host.text ++ ':' :: (n.text ++ if slash then ['/'] else [])

theorem addressText_eq (n : Digits) (host : Word isAsciiHostChar) (slash : Bool) :
    addressText n host slash = (host.text ++ ':' :: n.text) ++ if slash then ['/'] else [] := by
  simp [addressText]

def Spelling.text (n : Digits) : Spelling → Text
  | .number => n.text
  | .address host slash => addressText n host slash
  | .url scheme host slash => scheme.text ++ ("://" ++ addressText n host slash)

/-- A text as it is, or between two equal quotes. -/
def enclose (quote : Option { q : Char // isQuote q = true }) (t : Text) : Text :=
  match quote with
  | none => t
  | some q => q.val :: (t ++ [q.val])

/-- What a declaration of the number `v` comes to: the number when it is a port, and else a failure of the generator. -/
def Settles (v : Nat) (r : Except PortFault Port) : Prop :=
  if 1 ≤ v ∧ v ≤ 65535 then r = .ok (.number v)
  else ∃ fault, r = .error fault ∧
    ∀ location, ∃ failure, fault.toFailure location = .ok failure ∧ failure.kind = .generator

variable {c : Char} {t : Text}

/-! ### Characters -/

/-- A character of a host with digits behind it. -/
def isAuthorityChar (c : Char) : Bool := isAsciiHostChar c || c = ':'

/-- A character of a spelling. -/
def isPlain (c : Char) : Bool := isAuthorityChar c || c = '/'

theorem ne_of_class {p : Char → Bool} {d : Char} (h : p c = true) (hd : p d = false) : c ≠ d := by
  rintro rfl
  rw [h] at hd
  cases hd

theorem isAuthorityChar_of_isAsciiHostChar (h : isAsciiHostChar c = true) : isAuthorityChar c = true := by
  simp [isAuthorityChar, h]

theorem isPlain_of_isAuthorityChar (h : isAuthorityChar c = true) : isPlain c = true := by
  simp [isPlain, h]

theorem isAsciiHostChar_of_isAsciiDigit (h : Text.isAsciiDigit c = true) : isAsciiHostChar c = true := by
  simp [isAsciiHostChar, h]

theorem isAsciiHostChar_of_isAsciiLetter (h : Text.isAsciiLetter c = true) : isAsciiHostChar c = true := by
  simp [isAsciiHostChar, h]

theorem toNat_of_isPlain (h : isPlain c = true) : 0x2d ≤ c.toNat ∧ c.toNat ≤ 0x7a := by
  simp only [isPlain, isAuthorityChar, isAsciiHostChar, Text.isAsciiLetter, Text.isAsciiDigit, Bool.or_eq_true,
    Bool.and_eq_true, decide_eq_true_eq] at h
  obtain ((((hletter | hdigit) | rfl) | rfl) | rfl) | rfl := h
  · omega
  · omega
  all_goals decide

theorem isBlank_of_isPlain (h : isPlain c = true) : Text.isBlank c = false := by
  have hc := toNat_of_isPlain h
  unfold Text.isBlank
  rw [if_pos (by omega)]
  simp only [Bool.or_eq_false_iff, Bool.and_eq_false_iff, decide_eq_false_iff_not]
  omega

theorem isQuote_of_isPlain (h : isPlain c = true) : isQuote c = false := by
  have hdouble : c ≠ '"' := ne_of_class h (by decide)
  have hsingle : c ≠ '\'' := ne_of_class h (by decide)
  have htick : c ≠ '`' := ne_of_class h (by decide)
  simp [isQuote, hdouble, hsingle, htick]

variable {n : Digits} {host : Word isAsciiHostChar}

theorem isAuthorityChar_of_mem (h : c ∈ host.text ++ ':' :: n.text) : isAuthorityChar c = true := by
  rw [List.mem_append, List.mem_cons] at h
  obtain h | rfl | h := h
  · exact isAuthorityChar_of_isAsciiHostChar (host.all c h)
  · rfl
  · exact isAuthorityChar_of_isAsciiHostChar (isAsciiHostChar_of_isAsciiDigit (n.all c h))

theorem isPlain_addressText {slash : Bool} (h : c ∈ addressText n host slash) : isPlain c = true := by
  obtain h | h := List.mem_append.mp (addressText_eq n host slash ▸ h)
  · exact isPlain_of_isAuthorityChar (isAuthorityChar_of_mem h)
  · cases slash with
    | true =>
      rw [List.mem_singleton.mp h]
      rfl
    | false => cases h

theorem isPlain_text {x : Spelling} (h : c ∈ x.text n) : isPlain c = true := by
  cases x with
  | number =>
    exact isPlain_of_isAuthorityChar (isAuthorityChar_of_isAsciiHostChar (isAsciiHostChar_of_isAsciiDigit (n.all c h)))
  | address host slash => exact isPlain_addressText h
  | url scheme host slash =>
    simp only [Spelling.text, List.mem_append] at h
    obtain h | h | h := h
    · have hhost := isAsciiHostChar_of_isAsciiLetter (scheme.all c h)
      exact isPlain_of_isAuthorityChar (isAuthorityChar_of_isAsciiHostChar hhost)
    · have hsigns : ("://" : Text).all isPlain = true := by decide
      exact List.all_eq_true.mp hsigns c h
    · exact isPlain_addressText h

/-! ### Quotes -/

theorem isBlank_of_isQuote (h : isQuote c = true) : Text.isBlank c = false := by
  simp only [isQuote, Bool.or_eq_true, decide_eq_true_eq] at h
  obtain (rfl | rfl) | rfl := h <;> decide

/-- Quotes around a plain text are taken off, and nothing else is. -/
theorem bareText_enclose (quote : Option { q : Char // isQuote q = true }) (h : ∀ c ∈ t, isPlain c = true) :
    bareText (enclose quote t) = t := by
  have htrim : Text.trim t = t := Text.trim_of_not_blank fun c hc => isBlank_of_isPlain (h c hc)
  unfold bareText
  cases quote with
  | none =>
    -- a plain text does not start with a quote
    have hunquote : Value.unquote t = t := by
      cases t with
      | nil => rfl
      | cons c t =>
        unfold Value.unquote
        simp only [isQuote_of_isPlain (h c List.mem_cons_self)]
        split <;> rfl
    rw [enclose, htrim, hunquote, htrim]
  | some q =>
    -- a quote is no blank, so the quotes are where they were after trimming
    have hblank : ∀ c ∈ q.val :: (t ++ [q.val]), Text.isBlank c = false := by
      intro c hc
      simp only [List.mem_cons, List.mem_append, List.not_mem_nil, or_false] at hc
      obtain rfl | hc | rfl := hc
      · exact isBlank_of_isQuote q.property
      · exact isBlank_of_isPlain (h c hc)
      · exact isBlank_of_isQuote q.property
    have hunquote : Value.unquote (q.val :: (t ++ [q.val])) = t := by
      simp [Value.unquote, q.property]
    rw [enclose, Text.trim_of_not_blank hblank, hunquote, htrim]

/-! ### Digits -/

theorem length_le_of_accepted (n : Digits) : n.text.length ≤ Text.maxDigits := by
  obtain ⟨v, hv⟩ := n.accepted
  have htake : n.text.takeWhile Text.isDecimal = n.text :=
    List.takeWhile_eq_self_iff.mpr fun c hc => Text.isDecimal_of_isAsciiDigit (n.all c hc)
  by_contra hlong
  have hfault : number? n.text = .error (.tooLong (n.text.takeWhile Text.isDecimal).length) := by
    rw [number?_eq_error_iff]
    exact .tooLong (by rw [htake]; omega)
  rw [hv] at hfault
  cases hfault

theorem number?_digits (n : Digits) : number? n.text = .ok n.value := by
  have hlength := length_le_of_accepted n
  have htake : (n.text.takeWhile Text.isDecimal).length ≤ n.text.length := (List.takeWhile_sublist _).length_le
  unfold number?
  rw [Text.decimalValue?_of_isAsciiDigit n.all, if_neg (by omega)]
  rfl

theorem settles_check (raw : Text) (v : Nat) : Settles v (check raw v) := by
  unfold Settles check
  by_cases hv : 1 ≤ v ∧ v ≤ 65535
  · rw [if_pos hv, if_pos (by simp; omega)]
  · rw [if_neg hv, if_neg (by simp; omega)]
    exact ⟨_, rfl, fun location => ⟨_, rfl, rfl⟩⟩

theorem settles_ofDigits (raw : Text) (n : Digits) : Settles n.value (ofDigits raw n.text) := by
  unfold ofDigits
  rw [number?_digits]
  exact settles_check raw n.value

/-! ### Hosts -/

theorem isHostChar_of_isAsciiHostChar (h : isAsciiHostChar c = true) : isHostChar c = true := by
  have hascii := toNat_of_isPlain (isPlain_of_isAuthorityChar (isAuthorityChar_of_isAsciiHostChar h))
  unfold isAsciiHostChar Text.isAsciiDigit at h
  unfold isHostChar Text.isWord
  rw [if_pos (by omega)]
  simp only [Bool.or_eq_true] at h ⊢
  obtain ((hletter | hdigit) | hdot) | hdash := h
  · exact .inl (.inl (.inl (.inl hletter)))
  · exact .inl (.inl (.inl (.inr hdigit)))
  · exact .inl (.inr hdot)
  · exact .inr hdash

theorem hostPort?_address (n : Digits) (host : Word isAsciiHostChar) (slash : Bool) :
    hostPort? (addressText n host slash) = some n.text := by
  refine (hostPort?_eq_some_iff _ _).mpr ⟨host.text, _, rfl, fun c hc => ?_, n.notEmpty, fun c hc => ?_, ?_⟩
  · exact isHostChar_of_isAsciiHostChar (host.all c hc)
  · exact Text.isDecimal_of_isAsciiDigit (n.all c hc)
  · cases slash <;> simp

theorem colon_not_mem_scheme (scheme : Word Text.isAsciiLetter) : ':' ∉ scheme.text :=
  fun h => absurd (scheme.all ':' h) (by decide)

/-- Behind the first colon of a URL stands no digit. -/
theorem hostPort?_url (n : Digits) (scheme : Word Text.isAsciiLetter) (host : Word isAsciiHostChar) (slash : Bool) :
    hostPort? ((Spelling.url scheme host slash).text n) = none := by
  refine Option.eq_none_iff_forall_ne_some.mpr fun digits hsome => ?_
  obtain ⟨before, behind, htext, hbefore, hne, hdigits, -⟩ := (hostPort?_eq_some_iff _ _).mp hsome
  have hfirst := Text.cut?_append (colon_not_mem_scheme scheme) ('/' :: '/' :: addressText n host slash)
  have hsecond := Text.cut?_append (c := ':') (fun h => absurd (hbefore ':' h) (by decide)) (digits ++ behind)
  rw [← htext] at hsecond
  have hrest : '/' :: '/' :: addressText n host slash = digits ++ behind :=
    (Prod.mk.inj (Option.some.inj (hfirst.symm.trans hsecond))).2
  obtain ⟨d, ds, rfl⟩ := List.exists_cons_of_ne_nil hne
  obtain ⟨rfl, -⟩ := List.cons.inj hrest
  exact absurd (hdigits '/' List.mem_cons_self) (by decide)

/-! ### URLs -/

theorem clean_eq_self (h : ∀ c ∈ t, isPlain c = true) : Authority.clean t = t := by
  have hdrop : t.dropWhile (fun c => decide (c.toNat ≤ 0x20)) = t := by
    cases t with
    | nil => rfl
    | cons c t =>
      have hc := toNat_of_isPlain (h c List.mem_cons_self)
      exact List.dropWhile_cons_of_neg (by simp; omega)
  unfold Authority.clean
  rw [hdrop, List.filter_eq_self]
  intro c hc
  have htab : c ≠ '\t' := ne_of_class (h c hc) (by decide)
  have hreturn : c ≠ '\r' := ne_of_class (h c hc) (by decide)
  have hfeed : c ≠ '\n' := ne_of_class (h c hc) (by decide)
  simp [htab, hreturn, hfeed]

theorem afterScheme_url (scheme : Word Text.isAsciiLetter) (r : Text) :
    Authority.afterScheme (scheme.text ++ ':' :: r) = r := by
  obtain ⟨c, s, hs⟩ := List.exists_cons_of_ne_nil scheme.notEmpty
  have hall : Text.isAsciiLetter c = true ∧ ∀ d ∈ s, Text.isAsciiLetter d = true := by
    have hall := scheme.all
    rw [hs] at hall
    exact List.forall_mem_cons.mp hall
  have hrest : s.all Authority.isSchemeChar = true := by
    refine List.all_eq_true.mpr fun d hd => ?_
    simp [Authority.isSchemeChar, hall.2 d hd]
  unfold Authority.afterScheme
  rw [Text.cut?_append (colon_not_mem_scheme scheme), hs]
  simp [hall.1, hrest]

/-- The authority of a URL is its host with the digits. -/
theorem ofUrl_url (n : Digits) (scheme : Word Text.isAsciiLetter) (host : Word isAsciiHostChar) (slash : Bool) :
    Authority.ofUrl ((Spelling.url scheme host slash).text n) = host.text ++ ':' :: n.text := by
  have hafter : Authority.afterScheme ((Spelling.url scheme host slash).text n) =
      '/' :: '/' :: addressText n host slash := afterScheme_url scheme _
  unfold Authority.ofUrl
  rw [clean_eq_self fun c hc => isPlain_text hc, hafter, addressText_eq]
  refine (Text.span_exact (fun c hc => ?_) fun c hc => ?_).1
  · have hslash : c ≠ '/' := ne_of_class (isAuthorityChar_of_mem hc) (by decide)
    have hquery : c ≠ '?' := ne_of_class (isAuthorityChar_of_mem hc) (by decide)
    have hfragment : c ≠ '#' := ne_of_class (isAuthorityChar_of_mem hc) (by decide)
    simp [hslash, hquery, hfragment]
  · cases slash with
    | true =>
      cases hc
      decide
    | false => cases hc

theorem not_mem_authority {d : Char} (hd : isAuthorityChar d = false) : d ∉ host.text ++ ':' :: n.text :=
  fun hmem => ne_of_class (isAuthorityChar_of_mem hmem) hd rfl

theorem portText_authority (n : Digits) (host : Word isAsciiHostChar) :
    Authority.portText (host.text ++ ':' :: n.text) = n.text := by
  have hinfo : Authority.hostInfo (host.text ++ ':' :: n.text) = host.text ++ ':' :: n.text := by
    have hat : '@' ∉ (host.text ++ ':' :: n.text).reverse := by
      rw [List.mem_reverse]
      exact not_mem_authority (by decide)
    unfold Authority.hostInfo Text.cutLast?
    rw [Text.cut?_eq_none hat]
    rfl
  have hbracket : Text.cut? '[' (host.text ++ ':' :: n.text) = none := Text.cut?_eq_none (not_mem_authority (by decide))
  have hcolon : ':' ∉ host.text := fun h => absurd (host.all ':' h) (by decide)
  unfold Authority.portText Authority.partition
  simp only [hinfo, hbracket, Text.cut?_append hcolon, Option.getD_some]

/-- **The port of a URL** is its number, when that is at most 65535. -/
theorem port_url (n : Digits) (scheme : Word Text.isAsciiLetter) (host : Word isAsciiHostChar) (slash : Bool) :
    Authority.port ((Spelling.url scheme host slash).text n) =
      if n.value ≤ 65535 then .ok (some n.value) else .error .malformed := by
  have hcontains : ∀ d, isAuthorityChar d = false → (host.text ++ ':' :: n.text).contains d = false := by
    intro d hd
    rw [Bool.eq_false_iff, ne_eq, List.contains_iff_mem]
    exact not_mem_authority hd
  have hfit : Authority.bracketsFit (host.text ++ ':' :: n.text) = true := by
    unfold Authority.bracketsFit
    rw [hcontains '[' (by decide), hcontains ']' (by decide)]
    rfl
  -- a character of the authority is ASCII, and those that become others are not
  have hascii : (host.text ++ ':' :: n.text).any (fun c => Authority.lookalikes.contains c.toNat) = false := by
    rw [List.any_eq_false]
    intro c hc hmem
    have hle := (toNat_of_isPlain (isPlain_of_isAuthorityChar (isAuthorityChar_of_mem hc))).2
    have hlow : ∀ m ∈ Authority.lookalikes, 0x7a < m := by decide
    have hlt := hlow c.toNat (List.contains_iff_mem.mp hmem)
    omega
  have hdigits : n.text.all Text.isAsciiDigit = true := List.all_eq_true.mpr n.all
  have hne : n.text.isEmpty = false := List.isEmpty_eq_false_iff.mpr n.notEmpty
  unfold Authority.port
  simp only [ofUrl_url, hfit, hascii, portText_authority, hne, hdigits, length_le_of_accepted n,
    Text.decimalValue?_of_isAsciiDigit n.all, Bool.not_true, Bool.or_self, Bool.false_eq_true, if_false, decide_true,
    Bool.and_self, if_true, Option.getD_some]
  rfl

/-! ### Declarations -/

theorem not_all_digits (h : ':' ∈ t) : (!t.isEmpty && t.all Text.isDigit) = false := by
  have hall : t.all Text.isDigit = false := List.all_eq_false.mpr ⟨':', h, by decide⟩
  rw [hall, Bool.and_false]

/-- **All spellings of a port agree.**  The number alone, behind a host or in a URL, with or without a slash behind and
with or without quotes, gives the number when it is between 1 and 65535, and else a failure of the generator. -/
theorem derive_spelling (n : Digits) (x : Spelling) (quote : Option { q : Char // isQuote q = true }) :
    Settles n.value (derive (some (enclose quote (x.text n)))) := by
  have hbare : Text.trim (Value.unquote (Text.trim (enclose quote (x.text n)))) = x.text n :=
    bareText_enclose quote fun c hc => isPlain_text hc
  unfold derive
  simp only [hbare]
  cases x with
  | number =>
    have hdigits : (!n.text.isEmpty && n.text.all Text.isDigit) = true := by
      have hall : n.text.all Text.isDigit = true := List.all_eq_true.mpr fun c hc => by
        simp [Text.isDigit, Text.isDecimal_of_isAsciiDigit (n.all c hc)]
      rw [hall, List.isEmpty_eq_false_iff.mpr n.notEmpty]
      rfl
    rw [Spelling.text, if_pos hdigits]
    exact settles_ofDigits _ n
  | address host slash =>
    have hcolon : ':' ∈ addressText n host slash := by simp [addressText]
    rw [Spelling.text, if_neg (Bool.eq_false_iff.mp (not_all_digits hcolon)), hostPort?_address]
    exact settles_ofDigits _ n
  | url scheme host slash =>
    have hcolon : ':' ∈ (Spelling.url scheme host slash).text n := by simp [Spelling.text]
    -- the host of a URL would have to end at its first colon, and slashes follow there
    have hurl : Text.occursIn "://" ((Spelling.url scheme host slash).text n) = true := Text.occursIn_append _ _ _
    rw [if_neg (Bool.eq_false_iff.mp (not_all_digits hcolon)), hostPort?_url]
    simp only
    rw [if_pos hurl, port_url]
    by_cases hv : n.value ≤ 65535
    · rw [if_pos hv]
      exact settles_check _ n.value
    · -- the reader of URLs refuses the number itself
      rw [if_neg hv, Settles, if_neg fun h => hv h.2]
      exact ⟨_, rfl, fun location => ⟨_, rfl, rfl⟩⟩

def paddedEighty : Digits := ⟨⟨"0080", by decide, List.all_eq_true.mp (by decide)⟩, 80, by decide⟩

/-- The port 80 with two zeros before it, in a URL between quotes. -/
theorem derive_spelling_quotedUrl :
    paddedEighty.value = 80 ∧ derive (some "'http://a-b.c:0080/'") = .ok (.number 80) := by
  have hvalue : paddedEighty.value = 80 := by decide
  have hsettles := derive_spelling paddedEighty
    (.url ⟨"http", by decide, List.all_eq_true.mp (by decide)⟩ ⟨"a-b.c", by decide, List.all_eq_true.mp (by decide)⟩ true)
    (some ⟨'\'', by decide⟩)
  rw [hvalue] at hsettles
  exact ⟨hvalue, hsettles⟩

example : derive (some "x:65536") = .error (.outOfRange "x:65536") ∧
    derive (some "ws://x:65536") = .error (.invalid "ws://x:65536") := by decide

end Port

end Trellis
