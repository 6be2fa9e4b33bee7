import Trellis.Proofs.FunctionBodies
import Trellis.Proofs.StateOrder

/-!
# Local names of generated functions

The lines of a function are read one after another, with the blocks between braces that are open and the `let`s of each
(`behind`).  A `let` is in force as long as no line of its block stands less deep than the `let` itself.

In a function made of assignments, conditions and comments, no `let` introduces a parameter, a state or a name that is
in force, and a name is assigned only where it is a parameter or in force.  Only an `if` has braces, so a `let` below an
assignment goes out of force while its block is still open: there, and only there, a name can be introduced again in the
same block.  Where no assignment has lines below it, no name is introduced twice in a block.
-/

namespace Trellis

namespace Statement

mutual

/-- An assignment, a condition or a comment, with nothing else in it. -/
def isLocal : Statement → Bool
  | .comment _ _ => true
  | .assign _ _ body _ => allLocal body
  | .cond _ body orelse _ => allLocal body && allLocal orelse
  | .raw _ _ _ | .respond _ _ | .respondBlock _ _ => false

/-- Assignments, conditions and comments, with nothing else in them. -/
def allLocal : List Statement → Bool
  | [] => true
  | s :: ss => isLocal s && allLocal ss

end

mutual

/-- No assignment of the statement has lines below it. -/
def isFlat : Statement → Bool
  | .assign _ _ body _ => body.isEmpty
  | .cond _ body orelse _ => allFlat body && allFlat orelse
  | .comment _ _ | .raw _ _ _ | .respond _ _ | .respondBlock _ _ => true

/-- No assignment of the statements has lines below it. -/
def allFlat : List Statement → Bool
  | [] => true
  | s :: ss => isFlat s && allFlat ss

end

end Statement

namespace Code

/-! ### Reading lines of code -/

/-- What a line of code does to the local names and to the blocks between braces. -/
inductive LineRole where
  | introduces (name : Text)
  | assigns (name : Text)
  | opens
  | reopens
  | closes
  | other
  deriving DecidableEq, Repr

/-- The name before an equals sign at the start of a text. -/
def assignedName? (t : Text) : Option Text := do
  let (name, rest) ← Text.takeName? t
  if Text.startsWith rest " = " then some name else none

def lineRole (t : Text) : LineRole :=
  if t = "\x7d" then .closes
  else if t = "\x7d else \x7b" then .reopens
  else if Text.startsWith t "if (" then .opens
  else
    match (Text.after? "let " t).bind assignedName?, assignedName? t with
    | some name, _ => .introduces name
    | none, some name => .assigns name
    | none, none => .other

/-- A `let` of an open block: its name, the level of its line, and the least level of the lines of the block since. -/
structure Local where
  name : Text
  level : Nat
  low : Nat
  deriving DecidableEq, Repr

/-- No line of the block has stood less deep than the `let`. -/
def Local.InForce (x : Local) : Prop := x.level ≤ x.low

/-- A line of the block at a level. -/
def Local.pass (level : Nat) (x : Local) : Local := { x with low := min x.low level }

/-- The blocks around a line, innermost first, when `blocks` are open before it. -/
def enclosing (blocks : List (List Local)) (l : CodeLine) : List (List Local) :=
  let around :=
    match lineRole l.text with
    | .reopens | .closes => blocks.tail
    | _ => blocks
  around.modifyHead (·.map (Local.pass l.level))

/-- The blocks that are open behind a line. -/
def behind (blocks : List (List Local)) (l : CodeLine) : List (List Local) :=
  match lineRole l.text with
  | .opens | .reopens => [] :: enclosing blocks l
  | .introduces name => (enclosing blocks l).modifyHead (⟨name, l.level, l.level⟩ :: ·)
  | _ => enclosing blocks l

/-! ### The roles of the written lines -/

section

variable {n : Text} (v : Text)

theorem startsWith_iff {t p : Text} : Text.startsWith t p = true ↔ ∃ r, t = p ++ r := by
  unfold Text.startsWith
  rw [Option.isSome_iff_exists]
  simp only [Text.after?_eq_some_iff]

/-- What stands behind a name in a line. -/
theorem takeName?_line {lead : Text} (hn : Text.isName n = true) (hlead : lead.head?.any Text.isNamePart = false)
    (hne : lead ≠ []) : Text.takeName? (n ++ lead ++ v) = some (n, lead ++ v) := by
  obtain ⟨c, lead, rfl⟩ := List.exists_cons_of_ne_nil hne
  rw [List.append_assoc]
  refine Text.takeName?_append_of_isName hn ?_
  rintro d ⟨⟩
  exact hlead

theorem assignedName?_assign (hn : Text.isName n = true) : assignedName? (n ++ " = " ++ v) = some n := by
  unfold assignedName?
  rw [takeName?_line v hn (by decide) (by simp)]
  rfl

/-- A line that starts with a name is no brace, and it opens a block only behind `if`. -/
theorem lineRole_of_takeName? {t r : Text} (h : Text.takeName? t = some (n, r))
    (hopen : Text.startsWith r " (" = false) :
    lineRole t =
      match (Text.after? "let " t).bind assignedName?, assignedName? t with
      | some name, _ => .introduces name
      | none, some name => .assigns name
      | none, none => .other := by
  have hclose : t ≠ "\x7d" := by
    rintro rfl
    cases h
  have hreopen : t ≠ "\x7d else \x7b" := by
    rintro rfl
    cases h
  have hif : ¬ Text.startsWith t "if (" = true := by
    intro hstart
    obtain ⟨s, rfl⟩ := startsWith_iff.mp hstart
    have htake : Text.takeName? (("if" : Text) ++ " (" ++ s) = _ := takeName?_line s (by decide) (by decide) (by simp)
    obtain ⟨-, rfl⟩ := Prod.mk.inj (Option.some.inj (htake.symm.trans h))
    cases hopen
  unfold lineRole
  rw [if_neg hclose, if_neg hreopen, if_neg hif]

/-- A line that starts with a name introduces one only behind `let`. -/
theorem introduced_of_takeName? {t r : Text} (h : Text.takeName? t = some (n, r))
    (hr : ∀ s, r = ' ' :: s → assignedName? s = none) : (Text.after? "let " t).bind assignedName? = none := by
  cases hafter : Text.after? "let " t with
  | none => rfl
  | some s =>
    rw [Text.after?_eq_some_iff.mp hafter] at h
    have htake : Text.takeName? (("let" : Text) ++ " " ++ s) = _ := takeName?_line s (by decide) (by decide) (by simp)
    obtain ⟨-, rfl⟩ := Prod.mk.inj (Option.some.inj (htake.symm.trans h))
    exact hr s rfl

theorem lineRole_let (hn : Text.isName n = true) : lineRole ("let " ++ n ++ " = " ++ v) = .introduces n := by
  have hclose : "let " ++ n ++ " = " ++ v ≠ ("\x7d" : Text) := fun h => by cases h
  have hreopen : "let " ++ n ++ " = " ++ v ≠ ("\x7d else \x7b" : Text) := fun h => by cases h
  have hif : ¬ Text.startsWith ("let " ++ n ++ " = " ++ v) "if (" = true := fun h => by cases h
  have hafter : Text.after? "let " ("let " ++ n ++ " = " ++ v) = some (n ++ " = " ++ v) :=
    Text.after?_eq_some_iff.mpr (by simp only [List.append_assoc])
  unfold lineRole
  rw [if_neg hclose, if_neg hreopen, if_neg hif, hafter, Option.bind_some, assignedName?_assign v hn]

theorem lineRole_assign (hn : Text.isName n = true) : lineRole (n ++ " = " ++ v) = .assigns n := by
  have htake : Text.takeName? (n ++ " = " ++ v) = some (n, " = " ++ v) := takeName?_line v hn (by decide) (by simp)
  have hlet : (Text.after? "let " (n ++ " = " ++ v)).bind assignedName? = none := by
    refine introduced_of_takeName? htake fun s hs => ?_
    obtain ⟨-, rfl⟩ := List.cons.inj hs
    rfl
  rw [lineRole_of_takeName? htake rfl, hlet, assignedName?_assign v hn]

theorem lineRole_value (hn : Text.isName n = true) : lineRole (n ++ ".value = " ++ v) = .other := by
  have htake : Text.takeName? (n ++ ".value = " ++ v) = some (n, ".value = " ++ v) :=
    takeName?_line v hn (by decide) (by simp)
  have hlet : (Text.after? "let " (n ++ ".value = " ++ v)).bind assignedName? = none := by
    refine introduced_of_takeName? htake fun s hs => ?_
    cases hs
  have hassigned : assignedName? (n ++ ".value = " ++ v) = none := by
    unfold assignedName?
    rw [htake]
    rfl
  rw [lineRole_of_takeName? htake rfl, hlet, hassigned]

theorem lineRole_if (test : Text) : lineRole ("if (" ++ test ++ ") \x7b") = .opens := by
  have hclose : "if (" ++ test ++ ") \x7b" ≠ ("\x7d" : Text) := fun h => by cases h
  have hreopen : "if (" ++ test ++ ") \x7b" ≠ ("\x7d else \x7b" : Text) := fun h => by cases h
  unfold lineRole
  rw [if_neg hclose, if_neg hreopen, if_pos (startsWith_iff.mpr ⟨test ++ ") \x7b", List.append_assoc _ _ _⟩)]

theorem lineRole_comment (level : Nat) (text : Text) : lineRole (commentLine level text).text = .other := by
  obtain ⟨r, hr⟩ := commentLine_text level text
  rw [hr]
  rfl

end

/-! ### Lines that are read in their blocks -/

section

variable {blocks t : List (List Local)} {h : List Local} {l : CodeLine}

theorem enclosing_of_role {r : LineRole} (hl : lineRole l.text = r) (hreopens : r ≠ .reopens) (hcloses : r ≠ .closes) :
    enclosing (h :: t) l = h.map (Local.pass l.level) :: t := by
  unfold enclosing
  rw [hl]
  split
  · contradiction
  · contradiction
  · rfl

theorem behind_of_role {r : LineRole} (hl : lineRole l.text = r) (hr : r = .other ∨ ∃ n, r = .assigns n) :
    behind (h :: t) l = h.map (Local.pass l.level) :: t := by
  unfold behind
  rcases hr with rfl | ⟨n, rfl⟩
  · rw [hl, enclosing_of_role hl (by simp) (by simp)]
  · rw [hl, enclosing_of_role hl (by simp) (by simp)]

theorem behind_introduces {n : Text} (hl : lineRole l.text = .introduces n) :
    behind (h :: t) l = (⟨n, l.level, l.level⟩ :: h.map (Local.pass l.level)) :: t := by
  unfold behind
  rw [hl, enclosing_of_role hl (by simp) (by simp)]
  rfl

theorem behind_opens (hl : lineRole l.text = .opens) :
    behind (h :: t) l = [] :: h.map (Local.pass l.level) :: t := by
  unfold behind
  rw [hl, enclosing_of_role hl (by simp) (by simp)]

theorem behind_reopens (b : List Local) (hl : lineRole l.text = .reopens) :
    behind (b :: h :: t) l = [] :: h.map (Local.pass l.level) :: t := by
  unfold behind enclosing
  rw [hl]
  rfl

theorem behind_closes (b : List Local) (hl : lineRole l.text = .closes) :
    behind (b :: h :: t) l = h.map (Local.pass l.level) :: t := by
  unfold behind enclosing
  rw [hl]
  rfl

/-- Every line is as `P` says, with the blocks around it. -/
def Checked (P : List (List Local) → CodeLine → Prop) : List (List Local) → List CodeLine → Prop
  | _, [] => True
  | blocks, l :: ls => P (enclosing blocks l) l ∧ Checked P (behind blocks l) ls

variable {P : List (List Local) → CodeLine → Prop}

theorem Checked.append {xs ys : List CodeLine} (hx : Checked P blocks xs) (hy : Checked P (xs.foldl behind blocks) ys) :
    Checked P blocks (xs ++ ys) := by
  induction xs generalizing blocks with
  | nil => exact hy
  | cons x xs ih => exact ⟨hx.1, ih hx.2 hy⟩

theorem Checked.at_line {pre post : List CodeLine} (hc : Checked P blocks (pre ++ l :: post)) :
    P (enclosing (pre.foldl behind blocks) l) l := by
  induction pre generalizing blocks with
  | nil => exact hc.1
  | cons x pre ih => exact ih hc.2

end

/-- The local names of a line are in order: `blocks` are the blocks around it. -/
structure Proper (states parameters : List Text) (flat : Prop) (blocks : List (List Local)) (l : CodeLine) : Prop where
  fresh : ∀ n, lineRole l.text = .introduces n →
    n ∉ states ∧ n ∉ parameters ∧ ∀ b ∈ blocks, ∀ x ∈ b, x.name = n → ¬ x.InForce
  once : flat → ∀ n, lineRole l.text = .introduces n → ∀ b ∈ blocks.head?, ∀ x ∈ b, x.name ≠ n
  known : ∀ n, lineRole l.text = .assigns n →
    n ∉ states ∧ (n ∈ parameters ∨ ∃ b ∈ blocks, ∃ x ∈ b, x.name = n ∧ x.InForce)

theorem Proper.of_role {states parameters : List Text} {flat : Prop} {blocks : List (List Local)} {l : CodeLine}
    {r : LineRole} (hl : lineRole l.text = r) (hr : ∀ n, r ≠ .introduces n ∧ r ≠ .assigns n) :
    Proper states parameters flat blocks l := by
  subst hl
  exact ⟨fun n hn => absurd hn (hr n).1, fun _ n hn => absurd hn (hr n).1, fun n hn => absurd hn (hr n).2⟩

/-! ### The declared names and the blocks -/

/-- The names that are declared where a line of a level comes next are the parameters and the `let`s in force: `h` is
the innermost block and `t` are the blocks around it. -/
structure Agrees (parameters : List Text) (flat : Prop) (level : Nat) (declared : List Text) (h : List Local)
    (t : List (List Local)) : Prop where
  given : ∀ n ∈ parameters, n ∈ declared
  origin : ∀ n ∈ declared, n ∈ parameters ∨ (∃ x ∈ h, x.name = n ∧ x.InForce ∧ x.level ≤ level) ∨
    ∃ b ∈ t, ∃ x ∈ b, x.name = n ∧ x.InForce
  inner : ∀ x ∈ h, x.InForce → x.level ≤ level → x.name ∈ declared
  outer : ∀ b ∈ t, ∀ x ∈ b, x.InForce → x.name ∈ declared
  lasting : flat → ∀ x ∈ h, x.InForce ∧ x.level ≤ level

/-- What lines of a level and deeper do to the block they stand in: it gains `let`s of these levels only, and those that
it has are passed by these levels only. -/
structure Grown (level : Nat) (h h' : List Local) : Prop where
  old : ∀ x' ∈ h', level ≤ x'.level ∨ ∃ x ∈ h, x.name = x'.name ∧ x.level = x'.level ∧ x'.low ≤ x.low
  kept : ∀ x ∈ h, ∃ x' ∈ h', x'.name = x.name ∧ x'.level = x.level ∧ min x.low level ≤ x'.low

theorem Grown.trans {level : Nat} {h h' h'' : List Local} (hg : Grown level h h') (hg' : Grown level h' h'') :
    Grown level h h'' := by
  constructor
  · intro x'' hx''
    rcases hg'.old x'' hx'' with hlevel | ⟨x', hx', hname', hlevel', hlow'⟩
    · exact .inl hlevel
    · rcases hg.old x' hx' with hlevel | ⟨x, hx, hname, hlevel, hlow⟩
      · exact .inl (hlevel' ▸ hlevel)
      · exact .inr ⟨x, hx, hname.trans hname', hlevel.trans hlevel', hlow'.trans hlow⟩
  · intro x hx
    obtain ⟨x', hx', hname, hlevel, hlow⟩ := hg.kept x hx
    obtain ⟨x'', hx'', hname', hlevel', hlow'⟩ := hg'.kept x' hx'
    refine ⟨x'', hx'', hname'.trans hname, hlevel'.trans hlevel, ?_⟩
    omega

theorem Grown.refl (level : Nat) (h : List Local) : Grown level h h :=
  ⟨fun x hx => .inr ⟨x, hx, rfl, rfl, le_refl _⟩, fun x hx => ⟨x, hx, rfl, rfl, min_le_left _ _⟩⟩

theorem Grown.of_deeper {level : Nat} {h h' : List Local} (hg : Grown (level + 1) h h') : Grown level h h' := by
  constructor
  · intro x' hx'
    rcases hg.old x' hx' with hlevel | hold
    · exact .inl (Nat.le_of_succ_le hlevel)
    · exact .inr hold
  · intro x hx
    obtain ⟨x', hx', hname, hlevel, hlow⟩ := hg.kept x hx
    refine ⟨x', hx', hname, hlevel, ?_⟩
    omega

theorem Grown.pass (level : Nat) (h : List Local) : Grown level h (h.map (Local.pass level)) := by
  constructor
  · intro x' hx'
    obtain ⟨x, hx, rfl⟩ := List.mem_map.mp hx'
    exact .inr ⟨x, hx, rfl, rfl, min_le_left _ _⟩
  · intro x hx
    exact ⟨x.pass level, List.mem_map_of_mem hx, rfl, rfl, le_refl _⟩

theorem Grown.push (level : Nat) (n : Text) (low : Nat) (h : List Local) : Grown level h (⟨n, level, low⟩ :: h) := by
  constructor
  · intro x' hx'
    rcases List.mem_cons.mp hx' with rfl | hx'
    · exact .inl (le_refl _)
    · exact (Grown.refl level h).old x' hx'
  · intro x hx
    exact ⟨x, List.mem_cons_of_mem _ hx, rfl, rfl, min_le_left _ _⟩

section

variable {parameters declared : List Text} {flat : Prop} {level : Nat} {h h' : List Local} {t : List (List Local)}

theorem Agrees.pass (ha : Agrees parameters flat level declared h t) :
    Agrees parameters flat level declared (h.map (Local.pass level)) t := by
  have hforce : ∀ x : Local, x.InForce → x.level ≤ level → (x.pass level).InForce := fun x hx hlevel => le_min hx hlevel
  refine ⟨ha.given, fun n hn => ?_, ?_, ha.outer, ?_⟩
  · rcases ha.origin n hn with hparam | ⟨x, hx, hname, hin, hlevel⟩ | hout
    · exact .inl hparam
    · exact .inr (.inl ⟨x.pass level, List.mem_map_of_mem hx, hname, hforce x hin hlevel, hlevel⟩)
    · exact .inr (.inr hout)
  · intro x' hx' hin hlevel
    obtain ⟨x, hx, rfl⟩ := List.mem_map.mp hx'
    exact ha.inner x hx (le_trans hin (min_le_left _ _)) hlevel
  · intro hflat x' hx'
    obtain ⟨x, hx, rfl⟩ := List.mem_map.mp hx'
    obtain ⟨hin, hlevel⟩ := ha.lasting hflat x hx
    exact ⟨hforce x hin hlevel, hlevel⟩

/-- A `let` of a new name. -/
theorem Agrees.push (ha : Agrees parameters flat level declared h t) (n : Text) :
    Agrees parameters flat level (declared ++ [n]) (⟨n, level, level⟩ :: h) t := by
  refine ⟨fun m hm => List.mem_append_left _ (ha.given m hm), fun m hm => ?_, ?_,
    fun b hb x hx hin => List.mem_append_left _ (ha.outer b hb x hx hin), ?_⟩
  · rcases List.mem_append.mp hm with hm | hm
    · rcases ha.origin m hm with hparam | ⟨x, hx, hrest⟩ | hout
      · exact .inl hparam
      · exact .inr (.inl ⟨x, List.mem_cons_of_mem _ hx, hrest⟩)
      · exact .inr (.inr hout)
    · rw [List.mem_singleton] at hm
      exact .inr (.inl ⟨⟨n, level, level⟩, List.mem_cons_self, hm.symm, le_refl level, le_refl level⟩)
  · intro x hx hin hlevel
    rcases List.mem_cons.mp hx with rfl | hx
    · exact List.mem_append_right _ List.mem_cons_self
    · exact List.mem_append_left _ (ha.inner x hx hin hlevel)
  · intro hflat x hx
    rcases List.mem_cons.mp hx with rfl | hx
    · exact ⟨le_refl level, le_refl level⟩
    · exact ha.lasting hflat x hx

/-- The lines below a line of the level, in the same block. -/
theorem Agrees.deeper (ha : Agrees parameters flat level declared h t) (hlow : ∀ x ∈ h, x.low ≤ level) :
    Agrees parameters flat (level + 1) declared h t := by
  refine ⟨ha.given, fun n hn => ?_, fun x hx hin _ => ha.inner x hx hin (le_trans hin (hlow x hx)), ha.outer,
    fun hflat x hx => ⟨(ha.lasting hflat x hx).1, Nat.le_succ_of_le (ha.lasting hflat x hx).2⟩⟩
  rcases ha.origin n hn with hparam | ⟨x, hx, hname, hin, hlevel⟩ | hout
  · exact .inl hparam
  · exact .inr (.inl ⟨x, hx, hname, hin, Nat.le_succ_of_le hlevel⟩)
  · exact .inr (.inr hout)

/-- The lines of a new block behind a line of the level. -/
theorem Agrees.enter (ha : Agrees parameters flat level declared h t) (hlow : ∀ x ∈ h, x.low ≤ level) :
    Agrees parameters flat (level + 1) declared [] (h :: t) := by
  refine ⟨ha.given, fun n hn => ?_, fun x hx => absurd hx List.not_mem_nil, fun b hb x hx hin => ?_,
    fun _ x hx => absurd hx List.not_mem_nil⟩
  · rcases ha.origin n hn with hparam | ⟨x, hx, hname, hin, -⟩ | ⟨b, hb, hout⟩
    · exact .inl hparam
    · exact .inr (.inr ⟨h, List.mem_cons_self, x, hx, hname, hin⟩)
    · exact .inr (.inr ⟨b, List.mem_cons_of_mem _ hb, hout⟩)
  · rcases List.mem_cons.mp hb with rfl | hb
    · exact ha.inner x hx hin (le_trans hin (hlow x hx))
    · exact ha.outer b hb x hx hin

/-- Back from deeper lines: their `let`s are out of force, and those of the level are not. -/
theorem Agrees.leave (ha : Agrees parameters flat level declared h t) (hg : Grown (level + 1) h h')
    (hflat : flat → h' = h) : Agrees parameters flat level declared h' t := by
  refine ⟨ha.given, fun n hn => ?_, fun x' hx' hin hlevel => ?_, ha.outer, fun hf => (hflat hf).symm ▸ ha.lasting hf⟩
  · rcases ha.origin n hn with hparam | ⟨x, hx, hname, hin, hlevel⟩ | hout
    · exact .inl hparam
    · obtain ⟨x', hx', hname', hlevel', hlow⟩ := hg.kept x hx
      have hin' : x'.InForce := by
        unfold Local.InForce at hin ⊢
        omega
      exact .inr (.inl ⟨x', hx', hname'.trans hname, hin', hlevel' ▸ hlevel⟩)
    · exact .inr (.inr hout)
  · rcases hg.old x' hx' with hdeep | ⟨x, hx, hname, hlevel', hlow⟩
    · omega
    · have hin' : x.InForce := by
        unfold Local.InForce at hin ⊢
        omega
      exact hname ▸ ha.inner x hx hin' (hlevel' ▸ hlevel)

end

theorem map_pass_pass (level : Nat) (h : List Local) :
    (h.map (Local.pass level)).map (Local.pass level) = h.map (Local.pass level) := by
  simp [Local.pass, Function.comp_def]

theorem low_le_of_mem_pass {level : Nat} {h : List Local} {x : Local} (hx : x ∈ h.map (Local.pass level)) :
    x.low ≤ level := by
  obtain ⟨x, -, rfl⟩ := List.mem_map.mp hx
  exact min_le_right _ _

/-! ### What is written for a statement -/

/-- The lines, written at a level in the block `h` with the blocks `t` around it, have their local names in order, and
behind them `declared` is declared. -/
structure Orderly (states parameters : List Text) (flat : Prop) (level : Nat) (lines : List CodeLine)
    (declared : List Text) (h : List Local) (t : List (List Local)) : Prop where
  checked : Checked (Proper states parameters flat) (h :: t) lines
  blocks : ∃ h', lines.foldl behind (h :: t) = h' :: t ∧ Grown level h h' ∧ Agrees parameters flat level declared h' t

section

variable {states parameters declared declared' : List Text} {flat : Prop} {level : Nat} {h : List Local}
  {t : List (List Local)}

theorem Orderly.append {xs ys : List CodeLine} (hx : Orderly states parameters flat level xs declared h t)
    (hy : ∀ h', Agrees parameters flat level declared h' t → Orderly states parameters flat level ys declared' h' t) :
    Orderly states parameters flat level (xs ++ ys) declared' h t := by
  obtain ⟨h', hfold, hgrown, hagrees⟩ := hx.blocks
  have hys := hy h' hagrees
  obtain ⟨h'', hfold', hgrown', hagrees'⟩ := hys.blocks
  refine ⟨hx.checked.append (hfold ▸ hys.checked), h'', ?_, hgrown.trans hgrown', hagrees'⟩
  rw [List.foldl_append, hfold, hfold']

/-- A comment line. -/
theorem orderly_comment (text : Text) (ha : Agrees parameters flat level declared h t) :
    Orderly states parameters flat level [commentLine level text] declared h t := by
  have hrole := lineRole_comment level text
  exact ⟨⟨.of_role hrole (by simp), trivial⟩, _, behind_of_role hrole (.inl rfl), .pass level h, ha.pass⟩

/-- An assigned name is declared: it is a parameter or in force. -/
theorem proper_assigns {l : CodeLine} {n : Text} (hl : lineRole l.text = .assigns n) (hlevel : l.level = level)
    (hstate : n ∉ states) (hdeclared : n ∈ declared) (ha : Agrees parameters flat level declared h t) :
    Proper states parameters flat (enclosing (h :: t) l) l := by
  rw [enclosing_of_role hl (by simp) (by simp), hlevel]
  refine ⟨by simp [hl], by simp [hl], fun m hm => ?_⟩
  obtain rfl : n = m := LineRole.assigns.inj (hl.symm.trans hm)
  refine ⟨hstate, ?_⟩
  rcases ha.pass.origin n hdeclared with hparam | ⟨x, hx, hname, hin, -⟩ | ⟨b, hb, hout⟩
  · exact .inl hparam
  · exact .inr ⟨_, List.mem_cons_self, x, hx, hname, hin⟩
  · exact .inr ⟨b, List.mem_cons_of_mem _ hb, hout⟩

/-- A name that is not declared is no parameter, and not in force in any block around the line. -/
theorem proper_introduces {l : CodeLine} {n : Text} (hl : lineRole l.text = .introduces n) (hlevel : l.level = level)
    (hstate : n ∉ states) (hnew : n ∉ declared) (ha : Agrees parameters flat level declared h t) :
    Proper states parameters flat (enclosing (h :: t) l) l := by
  rw [enclosing_of_role hl (by simp) (by simp), hlevel]
  have hfresh : ∀ b ∈ h.map (Local.pass level) :: t, ∀ x ∈ b, x.name = n → ¬ x.InForce := by
    rintro b hb x hx rfl hin
    rcases List.mem_cons.mp hb with rfl | hb
    · exact hnew (ha.pass.inner x hx hin (le_trans hin (low_le_of_mem_pass hx)))
    · exact hnew (ha.outer b hb x hx hin)
  refine ⟨fun m hm => ?_, fun hflat m hm b hb x hx hname => ?_, by simp [hl]⟩
  · obtain rfl : n = m := LineRole.introduces.inj (hl.symm.trans hm)
    exact ⟨hstate, fun hparam => hnew (ha.given n hparam), hfresh⟩
  · obtain rfl : n = m := LineRole.introduces.inj (hl.symm.trans hm)
    obtain rfl : h.map (Local.pass level) = b := Option.some.inj hb
    exact hfresh _ List.mem_cons_self x hx hname (ha.pass.lasting hflat x hx).1

/-- The line of an assignment: a state is written through its cell, a declared name is assigned, and any other name is
introduced. -/
theorem orderly_assignLine (states : List Text) {scope : Scope} {target : Text} (value : Text)
    (htarget : Text.isName target = true) (ha : Agrees parameters flat level scope.declared h t) :
    let line := assignLine states level scope target value
    Proper states parameters flat (enclosing (h :: t) line.1) line.1 ∧
      ∃ h', behind (h :: t) line.1 = h' :: t ∧ Grown level h h' ∧
        Agrees parameters flat level line.2.declared h' t ∧ ∀ x ∈ h', x.low ≤ level := by
  unfold assignLine
  by_cases hstate : states.contains target = true
  · -- a state variable: no name is introduced or assigned
    have hrole := lineRole_value value htarget
    rw [if_pos hstate]
    exact ⟨.of_role hrole (by simp), _, behind_of_role hrole (.inl rfl), .pass level h, ha.pass, fun x => low_le_of_mem_pass⟩
  · have hnot : target ∉ states := by simpa using hstate
    rw [if_neg hstate]
    by_cases hdeclared : scope.declared.contains target = true
    · -- a declared name, so it is a parameter or in force
      have hrole := lineRole_assign value htarget
      rw [if_pos hdeclared]
      exact ⟨proper_assigns hrole rfl hnot (by simpa using hdeclared) ha, _, behind_of_role hrole (.inr ⟨_, rfl⟩), .pass level h,
        ha.pass, fun x => low_le_of_mem_pass⟩
    · -- a new name, in force from here to the end of its block
      have hrole := lineRole_let value htarget
      rw [if_neg hdeclared]
      refine ⟨proper_introduces hrole rfl hnot (by simpa using hdeclared) ha, _, behind_introduces hrole,
        (Grown.pass level h).trans (.push level target level _), ha.pass.push target, fun x hx => ?_⟩
      rcases List.mem_cons.mp hx with rfl | hx
      · exact le_refl level
      · exact low_le_of_mem_pass hx

/-- An assignment with the lines below it. -/
theorem orderly_assign {scope : Scope} {target : Text} (value : Text) {inner : List CodeLine}
    (htarget : Text.isName target = true) (hflat : flat → inner = [])
    (hinner : ∀ h, Agrees parameters flat (level + 1) (assignLine states level scope target value).2.declared h t →
      Orderly states parameters flat (level + 1) inner declared h t)
    (ha : Agrees parameters flat level scope.declared h t) :
    Orderly states parameters flat level ((assignLine states level scope target value).1 :: inner)
      (assignLine states level scope target value).2.declared h t := by
  obtain ⟨hproper, h', hbehind, hgrown, hagrees, hlow⟩ := orderly_assignLine states value htarget ha
  have hdeep := hinner h' (hagrees.deeper hlow)
  obtain ⟨h'', hfold, hgrown', -⟩ := hdeep.blocks
  refine ⟨⟨hproper, hbehind ▸ hdeep.checked⟩, h'', ?_, hgrown.trans hgrown'.of_deeper, hagrees.leave hgrown' ?_⟩
  · rw [List.foldl_cons, hbehind, hfold]
  · intro hf
    rw [hflat hf] at hfold
    exact (List.cons.inj hfold).1.symm

/-- The line that closes a condition leaves its branch. -/
theorem checked_close (states parameters : List Text) (flat : Prop) (level : Nat) (b h : List Local)
    (t : List (List Local)) :
    Checked (Proper states parameters flat) (b :: h.map (Local.pass level) :: t) [⟨level, "\x7d"⟩] ∧
      behind (b :: h.map (Local.pass level) :: t) ⟨level, "\x7d"⟩ = h.map (Local.pass level) :: t := by
  have hrole : lineRole "\x7d" = .closes := rfl
  refine ⟨⟨.of_role hrole (by simp), trivial⟩, ?_⟩
  rw [behind_closes b hrole, map_pass_pass]

/-- A condition with its branches: each is a block of its own, and nothing is left of it behind the condition. -/
theorem orderly_cond {declared'' : List Text} (test : Text) {inner other : List CodeLine} (alone : Bool)
    (hinner : ∀ h, Agrees parameters flat (level + 1) declared [] (h :: t) →
      Orderly states parameters flat (level + 1) inner declared' [] (h :: t))
    (hother : ∀ h, Agrees parameters flat (level + 1) declared [] (h :: t) →
      Orderly states parameters flat (level + 1) other declared'' [] (h :: t))
    (ha : Agrees parameters flat level declared h t) :
    Orderly states parameters flat level
      (⟨level, "if (" ++ test ++ ") \x7b"⟩ :: inner ++
        (if alone then [] else ⟨level, "\x7d else \x7b"⟩ :: other) ++ [⟨level, "\x7d"⟩]) declared h t := by
  have henter := ha.pass.enter fun x => low_le_of_mem_pass
  have hin := hinner _ henter
  obtain ⟨b, hfold, -⟩ := hin.blocks
  have hif := lineRole_if test
  have hopens : behind (h :: t) ⟨level, "if (" ++ test ++ ") \x7b"⟩ = [] :: h.map (Local.pass level) :: t :=
    behind_opens hif
  rw [List.append_assoc, List.cons_append]
  generalize hlines : (if alone then ([] : List CodeLine) else ⟨level, "\x7d else \x7b"⟩ :: other) ++
    [⟨level, "\x7d"⟩] = rest
  -- the `else` part, when there is one, starts a new block in place of the first
  have hrest : Checked (Proper states parameters flat) (b :: h.map (Local.pass level) :: t) rest ∧
      rest.foldl behind (b :: h.map (Local.pass level) :: t) = h.map (Local.pass level) :: t := by
    subst hlines
    cases alone with
    | true => exact checked_close states parameters flat level b h t
    | false =>
      have hrole : lineRole "\x7d else \x7b" = .reopens := rfl
      have hout := hother _ henter
      obtain ⟨b', hfold', -⟩ := hout.blocks
      have hreopens : behind (b :: h.map (Local.pass level) :: t) ⟨level, "\x7d else \x7b"⟩ =
          [] :: h.map (Local.pass level) :: t := by
        rw [behind_reopens b hrole, map_pass_pass]
      obtain ⟨hclose, hbehind⟩ := checked_close states parameters flat level b' h t
      rw [if_neg Bool.false_ne_true, List.cons_append]
      refine ⟨⟨.of_role hrole (by simp), ?_⟩, ?_⟩
      · rw [hreopens]
        exact hout.checked.append (hfold' ▸ hclose)
      · rw [List.foldl_cons, hreopens, List.foldl_append, hfold']
        exact hbehind
  refine ⟨⟨.of_role hif (by simp), ?_⟩, _, ?_, .pass level h, ha.pass⟩
  · rw [hopens]
    exact hin.checked.append (hfold ▸ hrest.1)
  · rw [List.foldl_cons, hopens, List.foldl_append, hfold, hrest.2]

end

mutual

theorem orderly_emit (states parameters : List Text) (flat : Prop) (level : Nat) (scope : Scope) (h : List Local)
    (t : List (List Local)) (ha : Agrees parameters flat level scope.declared h t) :
    ∀ s : Statement, s.isLocal = true → s.InFunction → (flat → s.isFlat = true) →
      Orderly states parameters flat level (emit states level scope s).1 (emit states level scope s).2.declared h t
  | .comment text _, _, _, _ => by
    rw [emit_comment]
    exact orderly_comment text ha
  | .assign target value body _, hlocal, hin, hflat => by
    -- in a flat body no assignment has lines below it
    have hnone : flat → body = [] := fun hf => List.isEmpty_iff.mp (hflat hf)
    rw [emit_assign]
    refine orderly_assign _ hin.1 (fun hf => ?_) (fun h' ha' => orderly_emitAll states parameters flat (level + 1) _
      h' t ha' body hlocal hin.2 fun hf => ?_) ha
    · rw [hnone hf, emitAll_nil]
    · rw [hnone hf]
      rfl
  | .cond condition body orelse _, hlocal, hin, hflat => by
    obtain ⟨hbody, horelse⟩ := Bool.and_eq_true_iff.mp hlocal
    have hinner := fun h' (ha' : Agrees parameters flat (level + 1) scope.declared [] (h' :: t)) =>
      -- both branches are blocks of their own, and what they declare ends with them
      orderly_emitAll states parameters flat (level + 1) (scope.await (transform states condition).2) [] (h' :: t) ha'
        body hbody hin.1 fun hf => (Bool.and_eq_true_iff.mp (hflat hf)).1
    have hother := fun h' (ha' : Agrees parameters flat (level + 1) scope.declared [] (h' :: t)) =>
      orderly_emitAll states parameters flat (level + 1) ((scope.await (transform states condition).2).leave
        (emitAll states (level + 1) (scope.await (transform states condition).2) body).2) [] (h' :: t) ha'
        orelse horelse hin.2 fun hf => (Bool.and_eq_true_iff.mp (hflat hf)).2
    rw [emit_cond]
    exact orderly_cond _ _ hinner hother ha

theorem orderly_emitAll (states parameters : List Text) (flat : Prop) (level : Nat) (scope : Scope) (h : List Local)
    (t : List (List Local)) (ha : Agrees parameters flat level scope.declared h t) :
    ∀ ss : List Statement, Statement.allLocal ss = true → Statement.AllInFunction ss →
      (flat → Statement.allFlat ss = true) →
      Orderly states parameters flat level (emitAll states level scope ss).1
        (emitAll states level scope ss).2.declared h t
  | [], _, _, _ => by
    rw [emitAll_nil]
    exact ⟨trivial, h, rfl, .refl level h, ha⟩
  | s :: ss, hlocal, hin, hflat => by
    obtain ⟨hs, hss⟩ := Bool.and_eq_true_iff.mp hlocal
    rw [emitAll_cons]
    exact (orderly_emit states parameters flat level scope h t ha s hs hin.1
      fun hf => (Bool.and_eq_true_iff.mp (hflat hf)).1).append fun h' ha' =>
        orderly_emitAll states parameters flat level _ h' t ha' ss hss hin.2
          fun hf => (Bool.and_eq_true_iff.mp (hflat hf)).2

end

end Code

namespace Component

open Code

/-- **Local names of a function** made of assignments, conditions and comments.  A `let` introduces no state, no
parameter and no name that is in force in a block around it; where no assignment has lines below it, it introduces no
name that its block has introduced before.  A name that is assigned is no state, and it is a parameter or in force. -/
theorem functionLines_locals {filename : Option Text} {source : Text} {f : FunctionDecl}
    (hf : f ∈ (Document.read filename source).script.functions) (hlocal : Statement.allLocal f.statements = true)
    (states : List Text) {first last l : CodeLine} {pre post : List CodeLine}
    (hlines : functionLines states f = first :: (pre ++ l :: post) ++ [last]) :
    let blocks := enclosing (pre.foldl behind [[]]) l
    (∀ n, lineRole l.text = .introduces n →
      n ∉ states ∧ n ∉ f.parameters ∧ (∀ b ∈ blocks, ∀ x ∈ b, x.name = n → ¬ x.InForce) ∧
        (Statement.allFlat f.statements = true → ∀ b ∈ blocks.head?, ∀ x ∈ b, x.name ≠ n)) ∧
      ∀ n, lineRole l.text = .assigns n →
        n ∉ states ∧ (n ∈ f.parameters ∨ ∃ b ∈ blocks, ∃ x ∈ b, x.name = n ∧ x.InForce) := by
  intro blocks
  have hbody : functionBody states f = pre ++ l :: post := by
    rw [functionLines_eq] at hlines
    exact (List.append_inj' (List.cons.inj hlines).2 rfl).1
  -- before the first line the parameters are declared and no block has introduced anything
  have hstart : Agrees f.parameters (Statement.allFlat f.statements = true) 1 f.parameters [] [] := by
    constructor <;> simp
  have horderly := orderly_emitAll states f.parameters (Statement.allFlat f.statements = true) 1
    { declared := f.parameters } [] [] hstart f.statements hlocal (Document.allInFunction_of_mem_functions hf) id
  have hchecked := horderly.checked
  rw [show (emitAll states 1 { declared := f.parameters } f.statements).1 = pre ++ l :: post from hbody] at hchecked
  have hproper : Proper states f.parameters (Statement.allFlat f.statements = true) blocks l := hchecked.at_line
  refine ⟨fun n hn => ?_, hproper.known⟩
  obtain ⟨hstate, hparam, hfresh⟩ := hproper.fresh n hn
  exact ⟨hstate, hparam, hfresh, fun hflat => hproper.once hflat n hn⟩

/-- A name of the function is assigned in a branch. -/
theorem functionLines_locals_branch :
    ∃ f ∈ (Document.read none "fn load(a)\n  x = 1\n  if a\n    x = a\n    y = x").script.functions,
      Statement.allLocal f.statements = true ∧
        functionLines [] f = ⟨0, "function load(a) \x7b"⟩ :: ([⟨1, "let x = 1"⟩, ⟨1, "if (a) \x7b"⟩] ++ ⟨2, "x = a"⟩ ::
          [⟨2, "let y = x"⟩, ⟨1, "\x7d"⟩]) ++ [⟨0, "\x7d"⟩] ∧
        lineRole "x = a" = .assigns "x" ∧
        (("x" : Text) ∈ f.parameters ∨
          ∃ b ∈ enclosing ([⟨1, "let x = 1"⟩, ⟨1, "if (a) \x7b"⟩].foldl behind [[]]) ⟨2, "x = a"⟩,
            ∃ x ∈ b, x.name = "x" ∧ x.InForce) := by
  have hall : (Document.read none "fn load(a)\n  x = 1\n  if a\n    x = a\n    y = x").script.functions.map
      (fun f => (Statement.allLocal f.statements, functionLines [] f)) =
      [(true, ⟨0, "function load(a) \x7b"⟩ :: ([⟨1, "let x = 1"⟩, ⟨1, "if (a) \x7b"⟩] ++ ⟨2, "x = a"⟩ ::
        [⟨2, "let y = x"⟩, ⟨1, "\x7d"⟩]) ++ [⟨0, "\x7d"⟩])] := by decide +kernel
  obtain ⟨f, hfunctions, hpair⟩ := List.map_eq_singleton_iff.mp hall
  obtain ⟨hlocal, hlines⟩ := Prod.mk.inj hpair
  have hf : f ∈ (Document.read none "fn load(a)\n  x = 1\n  if a\n    x = a\n    y = x").script.functions := by
    rw [hfunctions]
    exact List.mem_singleton_self f
  have hrole : lineRole "x = a" = .assigns "x" := by decide +kernel
  exact ⟨f, hf, hlocal, hlines, hrole, ((functionLines_locals hf hlocal [] hlines).2 _ hrole).2⟩

/-- The lines below an assignment stand in no braces: a name introduced there is introduced again behind them. -/
theorem let_repeated_in_block :
    (Document.read none "fn load()\n  x = 1\n    y = 2\n  y = 3").script.functions.map
        (fun f => (Statement.allLocal f.statements, functionLines [] f)) =
        [(true, [⟨0, "function load() \x7b"⟩, ⟨1, "let x = 1"⟩, ⟨2, "let y = 2"⟩, ⟨1, "let y = 3"⟩, ⟨0, "\x7d"⟩])] ∧
      lineRole "let y = 2" = .introduces "y" ∧ lineRole "let y = 3" = .introduces "y" ∧
      enclosing ([⟨1, "let x = 1"⟩, ⟨2, "let y = 2"⟩].foldl behind [[]]) ⟨1, "let y = 3"⟩ =
        [[⟨"y", 2, 1⟩, ⟨"x", 1, 1⟩]] := by
  decide +kernel

end Component

end Trellis
