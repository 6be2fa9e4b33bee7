import Trellis.Proofs.MarkupTree
import Trellis.Proofs.Reports
import Trellis.Proofs.Shift

/-!
# One source behind another

A line at the left margin ends everything that is open, so a source that starts with one is read as if nothing were
before it.  `Reading.behind` puts a reading behind a finished document; every line is read alike with and without the
document, but for two warnings about what the document has already (`step_behind`).  Joined sources therefore describe
the two documents, one behind the other (`read_joined`).
-/

namespace Trellis

/-- The second list is the first with more elements of a kind put in. -/
inductive Widened {α : Type} (E : α → Prop) : List α → List α → Prop where
  | nil : Widened E [] []
  | keep (x : α) {xs ys : List α} (h : Widened E xs ys) : Widened E (x :: xs) (x :: ys)
  | extra {x : α} (hx : E x) {xs ys : List α} (h : Widened E xs ys) : Widened E xs (x :: ys)

namespace Widened

variable {α : Type} {E : α → Prop} {xs ys xs' ys' : List α}

theorem refl (xs : List α) : Widened E xs xs := by
  induction xs with
  | nil => exact .nil
  | cons x xs ih => exact .keep x ih

theorem append (h : Widened E xs ys) (h' : Widened E xs' ys') : Widened E (xs ++ xs') (ys ++ ys') := by
  induction h with
  | nil => exact h'
  | keep x _ ih => exact .keep x ih
  | extra hx _ ih => exact .extra hx ih

/-- A condition that holds more often puts an element in. -/
theorem of_imp {β : Type} (f : β → α) (x : β) {b c : Bool} (h : b = true → c = true)
    (hx : b = false → c = true → E (f x)) :
    Widened E ((if b then [x] else []).map f) ((if c then [x] else []).map f) := by
  cases b with
  | true =>
    rw [h rfl]
    exact .refl _
  | false =>
    cases c with
    | true => exact .extra (hx rfl rfl) .nil
    | false => exact .nil

theorem append_same (h : Widened E xs ys) (zs : List α) : Widened E (xs ++ zs) (ys ++ zs) := h.append (.refl zs)

end Widened

namespace Document

/-! ### Everything is closed at the left margin -/

namespace Reading

variable {filename : Option Text} {t : LineToken} {r : Reading}

theorem closeFrames_zero (stack : List Frame) (roots : List Node) : (closeFrames 0 stack roots).1 = [] := by
  induction stack, roots using closeFrames.induct 0 with
  | case1 roots => rw [closeFrames]
  | case2 f fs roots hlt => omega
  | case3 f roots hlt => rw [closeFrames, if_neg hlt]
  | case4 f roots hlt g gs ih =>
    rw [closeFrames, if_neg hlt]
    exact ih

/-- Nothing is open. -/
structure Closed (r : Reading) : Prop where
  stack : r.stack = []
  capture : r.capture = none
  openServer : r.openServer = none

theorem closed_finish (filename : Option Text) (r : Reading) : (r.finish filename).Closed where
  stack := closeFrames_zero _ _
  capture := closeServer_capture.trans closeCapture_capture
  openServer := closeServer_openServer

theorem Closed.finish (h : r.Closed) : r.finish filename = r := by
  have hcapture : r.closeCapture filename = r := by
    unfold closeCapture
    rw [h.capture]
  have hserver : r.closeServer = r := by
    unfold closeServer
    rw [h.openServer]
  unfold Reading.finish popTo
  rw [hcapture, hserver, h.stack, closeFrames]
  obtain ⟨hs, -, -⟩ := h
  cases r
  cases hs
  rfl

theorem takes_margin (ht : t.indent = 0) : r.takes t = false := by
  unfold takes
  split
  · rw [ht]
    simp
  · rfl

theorem settle_margin (ht : t.indent = 0) : r.settle filename t = r.finish filename := by
  have hholds : (r.closeCapture filename).holds t = false := by
    unfold holds
    split
    · rw [ht]
      simp
    · rfl
  simp only [settle, hholds, ht]
  rfl

/-- A line at the left margin is read as behind a finished reading. -/
theorem step_margin (filename : Option Text) (r : Reading) (ht : t.indent = 0) (hk : t.kind ≠ .comment) :
    r.step filename t = (r.finish filename).step filename t := by
  rw [step_line filename (takes_margin ht) hk, step_line filename (takes_margin ht) hk, settle_margin ht,
    settle_margin ht, (closed_finish filename r).finish]

/-- Lines that start at the left margin are read as behind a finished reading. -/
theorem foldl_margin (filename : Option Text) (r : Reading) {ts : List LineToken}
    (h : ∀ t ∈ ts.head?, t.indent = 0 ∧ t.kind ≠ .comment) :
    (ts.foldl (step filename) r).finish filename = (ts.foldl (step filename) (r.finish filename)).finish filename := by
  cases ts with
  | nil => exact (closed_finish filename r).finish.symm
  | cons t ts =>
    obtain ⟨ht, hk⟩ := h t rfl
    rw [List.foldl_cons, List.foldl_cons, step_margin filename r ht hk]

/-! ### Readings behind a document -/

/-- The reading behind a document, with the diagnostics `ds` of its own. -/
def behind (d : Document) (ds : List Diagnostic) (r : Reading) : Reading :=
  { r with
    roots := d.children ++ r.roots
    server := d.script.server.or r.server
    state := d.script.state ++ r.state
    functions := d.script.functions ++ r.functions
    services := d.script.services ++ r.services
    aliases := d.script.aliases ++ r.aliases
    mount := r.mount.or d.script.mount
    diagnostics := d.diagnostics ++ ds }

/-- A finished reading is a new one behind its document. -/
theorem Closed.eq_behind (h : r.Closed) : r = behind r.toDocument [] {} := by
  obtain ⟨hs, hc, ho⟩ := h
  cases r
  cases hs
  cases hc
  cases ho
  simp [behind, toDocument]

variable {d : Document} {ds : List Diagnostic}

theorem declare_behind (c : Capture) :
    (r.behind d ds).declare filename c = (r.declare filename c).behind d (ds ++ c.diagnostics filename) := by
  unfold declare Capture.diagnostics
  cases c.head <;> simp [behind]

theorem closeCapture_behind :
    (r.behind d ds).closeCapture filename =
      (r.closeCapture filename).behind d (ds ++ r.pendingReports filename) := by
  have hcapture : (r.behind d ds).capture = r.capture := rfl
  unfold closeCapture pendingReports
  rw [hcapture]
  cases r.capture with
  | none => simp
  | some c =>
    simp only [Option.toList_some, List.flatMap_cons, List.flatMap_nil, List.append_nil]
    exact declare_behind (r := { r with capture := none }) c

theorem closeServer_behind : (r.behind d ds).closeServer = r.closeServer.behind d ds := by
  have hopen : (r.behind d ds).openServer = r.openServer := rfl
  unfold closeServer
  rw [hopen]
  cases r.openServer with
  | none => rfl
  | some o =>
    simp only [behind]
    cases d.script.server <;> simp

theorem closeFrames_behind (indent : Nat) (ns : List Node) (stack : List Frame) (roots : List Node) :
    closeFrames indent stack (ns ++ roots) =
      ((closeFrames indent stack roots).1, ns ++ (closeFrames indent stack roots).2) := by
  induction stack, roots using closeFrames.induct indent with
  | case1 roots => rw [closeFrames, closeFrames]
  | case2 f fs roots hlt =>
    rw [closeFrames.eq_def, closeFrames.eq_def]
    simp only [if_pos hlt]
  | case3 f roots hlt => rw [closeFrames, closeFrames, if_neg hlt, if_neg hlt, List.append_assoc]
  | case4 f roots hlt g gs ih =>
    rw [closeFrames, closeFrames, if_neg hlt, if_neg hlt]
    exact ih

theorem popTo_behind (indent : Nat) : (r.behind d ds).popTo indent = (r.popTo indent).behind d ds := by
  have hframes := closeFrames_behind indent d.children r.stack r.roots
  simp only [popTo, behind, hframes]

theorem finish_diagnostics (filename : Option Text) (r : Reading) :
    (r.finish filename).diagnostics = r.diagnostics ++ r.pendingReports filename := by
  rw [← closeCapture_diagnostics]
  exact closeServer_diagnostics

theorem settle_behind :
    (r.behind d ds).settle filename t = (r.settle filename t).behind d (ds ++ r.pendingReports filename) := by
  simp only [settle]
  rw [closeCapture_behind]
  have hholds : ∀ (s : Reading) es, (s.behind d es).holds t = s.holds t := fun _ _ => rfl
  rw [hholds]
  split
  · rfl
  · rw [closeServer_behind, popTo_behind]

theorem finish_behind :
    (r.behind d ds).finish filename = (r.finish filename).behind d (ds ++ r.pendingReports filename) := by
  unfold Reading.finish
  rw [closeCapture_behind, closeServer_behind, popTo_behind]

/-! ### Fates behind a document -/

/-- There is a node, closed or open. -/
def HasNodes (r : Reading) : Prop := r.stack ≠ [] ∨ r.roots ≠ []

theorem lastSibling?_behind (h : r.HasNodes) : (r.behind d ds).lastSibling? = r.lastSibling? := by
  have hstack : (r.behind d ds).stack = r.stack := rfl
  have hroots : (r.behind d ds).roots = d.children ++ r.roots := rfl
  unfold lastSibling?
  rw [hstack, hroots]
  cases hs : r.stack with
  | cons f fs => rfl
  | nil =>
    have hne : r.roots ≠ [] := h.resolve_left (not_not_intro hs)
    exact List.getLast?_append_of_ne_nil _ hne

theorem fate_behind (h : t.kind = .otherwise → r.HasNodes) :
    Fate.ofLine (r.behind d ds).context t = Fate.ofLine r.context t := by
  have hserver : (r.behind d ds).context.inServer = r.context.inServer := rfl
  have hparent : (r.behind d ds).context.parent = r.context.parent := rfl
  by_cases hk : t.kind = .otherwise
  · have hif : (r.behind d ds).context.afterIf = r.context.afterIf := by
      rw [context_afterIf, context_afterIf, lastSibling?_behind (h hk)]
    unfold Fate.ofLine Fate.outside
    rw [hserver, hparent, hif]
  · -- only the fate of an `else` looks at the sibling before it
    unfold Fate.ofLine Fate.outside
    rw [hserver, hparent]
    split
    · rfl
    · cases hkind : t.kind with
      | otherwise => exact absurd hkind hk
      | _ => rfl

theorem addTo?_behind (a : Addition) :
    a.addTo? filename t (r.behind d ds) = (a.addTo? filename t r).map (behind d ds) := by
  -- what goes onto the stack is the same: a document before leaves nothing open
  have honTop : ∀ change, (r.behind d ds).onTop? change = (r.onTop? change).map (behind d ds) := by
    intro change
    have hstack : (r.behind d ds).stack = r.stack := rfl
    unfold onTop?
    rw [hstack]
    cases r.stack with
    | nil => rfl
    | cons f fs =>
      simp only [Option.map_map]
      rfl
  cases a with
  | state type name value => simp [Addition.addTo?, behind]
  | serverState type name value =>
    have hopen : (r.behind d ds).openServer = r.openServer := rfl
    unfold Addition.addTo?
    simp only [hopen]
    cases r.openServer <;> rfl
  | aliasOf source name => simp [Addition.addTo?, behind]
  | capture head =>
    have hcapture : (r.behind d ds).capture = r.capture := rfl
    unfold Addition.addTo?
    simp only [hcapture]
    split <;> rfl
  | server name port =>
    have hopen : (r.behind d ds).openServer = r.openServer := rfl
    unfold Addition.addTo?
    simp only [hopen]
    split <;> rfl
  | node head => rfl
  | property key value => exact honTop _
  | tag name => exact honTop _
  | loopKey expression => exact honTop _

/-! ### One line behind a document -/

theorem hasNodes_closeFrames (indent : Nat) {stack : List Frame} {roots : List Node} (h : stack ≠ [] ∨ roots ≠ []) :
    (closeFrames indent stack roots).1 ≠ [] ∨ (closeFrames indent stack roots).2 ≠ [] := by
  refine closeFrames_keeps (P := fun stack roots => stack ≠ [] ∨ roots ≠ []) ?_ ?_ indent h
  · exact fun f roots _ => .inr (by simp)
  · exact fun f g fs roots _ => .inl (by simp)

theorem hasNodes_settle (filename : Option Text) (t : LineToken) (h : r.HasNodes) : (r.settle filename t).HasNodes := by
  obtain ⟨hs, hr, -⟩ := closeCapture_markup filename r
  have hclosed : (r.closeCapture filename).HasNodes := by
    unfold HasNodes
    rw [hs, hr]
    exact h
  simp only [settle]
  split
  · exact hclosed
  · obtain ⟨hs', hr'⟩ := closeServer_markup (r.closeCapture filename)
    refine hasNodes_closeFrames t.indent ?_
    rw [hs', hr']
    exact hclosed

end Reading

/-- The diagnostic warns that a mount or server line repeats what the document has. -/
def Repeats (filename : Option Text) (d : Document) (t : LineToken) (x : Diagnostic) : Prop :=
  (t.kind = .onMount ∧ d.script.mount.isSome ∧ x = Problem.duplicateMount.diagnose filename t.line t.raw) ∨
    (t.kind = .server ∧ d.script.server.isSome ∧ x = Problem.duplicateServer.diagnose filename t.line t.raw)

namespace Reading

variable {filename : Option Text} {t : LineToken} {r : Reading} {d : Document} {ds : List Diagnostic}
  {E : Diagnostic → Prop}

/-- Behind a document a line gets the same warnings, and perhaps one that it repeats what the document has. -/
theorem warnings_behind (hE : ∀ x, Repeats filename d t x → E x) :
    Widened E ((r.warnings t).map fun p => p.diagnose filename t.line t.raw)
      (((r.behind d ds).warnings t).map fun p => p.diagnose filename t.line t.raw) := by
  have hopen : (r.behind d ds).openServer = r.openServer := rfl
  have hserver : (r.behind d ds).server = d.script.server.or r.server := rfl
  have hmount : (r.behind d ds).mount = r.mount.or d.script.mount := rfl
  unfold warnings
  rw [hopen, hserver, hmount]
  by_cases ho : r.openServer.isSome = true
  · -- nothing inside a server is warned about
    rw [if_pos ho, if_pos ho]
    exact .nil
  · rw [if_neg ho, if_neg ho]
    cases hk : t.kind with
    | server =>
      -- the document may have a server already
      refine .of_imp _ _ (fun h => by simp [h]) fun hr hd => hE _ (.inr ⟨hk, ?_, rfl⟩)
      simpa [hr] using hd
    | onMount =>
      -- the document may have a mount hook already
      refine .of_imp _ _ (fun h => ?_) fun hr hd => hE _ (.inl ⟨hk, ?_, rfl⟩)
      · obtain ⟨hm, hform⟩ := Bool.and_eq_true_iff.mp h
        simp [hm, hform]
      · obtain ⟨hm, hform⟩ := Bool.and_eq_true_iff.mp hd
        rw [hform, Bool.and_true] at hr
        simpa [hr] using hm
    | _ => exact .nil

theorem warn_behind :
    (r.behind d ds).warn filename t = (r.warn filename t).behind d
      (ds ++ ((r.behind d ds).warnings t).map fun p => p.diagnose filename t.line t.raw) := by
  simp [warn, behind]

theorem report_behind (p : Problem) :
    (r.behind d ds).report filename t p =
      (r.report filename t p).behind d (ds ++ [p.diagnose filename t.line t.raw]) := by
  simp [report, reportLine, behind]

/-- What a line finds behind a document, when the line has ended what it ends and has been warned about. -/
theorem settle_warn_behind (hE : ∀ x, Repeats filename d t x → E x) (hds : Widened E r.diagnostics ds) :
    ∃ es, ((r.behind d ds).settle filename t).warn filename t = ((r.settle filename t).warn filename t).behind d es ∧
      Widened E ((r.settle filename t).warn filename t).diagnostics es := by
  have hsettled : Widened E (r.settle filename t).diagnostics (ds ++ r.pendingReports filename) := by
    rw [settle_diagnostics, closeCapture_diagnostics]
    exact hds.append_same _
  rw [settle_behind, warn_behind]
  exact ⟨_, rfl, hsettled.append (warnings_behind hE)⟩

/-- **One line behind a document** is read as without it; it may get one more warning. -/
theorem step_behind (hE : ∀ x, Repeats filename d t x → E x) (hds : Widened E r.diagnostics ds)
    (helse : t.kind = .otherwise → r.takes t = false → r.HasNodes) :
    ∃ es, (r.behind d ds).step filename t = (r.step filename t).behind d es ∧
      Widened E (r.step filename t).diagnostics es := by
  have htakes : (r.behind d ds).takes t = r.takes t := rfl
  cases ht : r.takes t with
  | true =>
    -- the line goes to the open capture
    rw [step_takes filename ht, step_takes filename (htakes.trans ht)]
    exact ⟨ds, rfl, hds⟩
  | false =>
    by_cases hk : t.kind = .comment
    · -- a comment closes the capture and does nothing else
      rw [step_comment filename ht hk, step_comment filename (htakes.trans ht) hk, closeCapture_behind,
        closeCapture_diagnostics]
      exact ⟨_, rfl, hds.append_same _⟩
    · have hnodes : t.kind = .otherwise → (r.settle filename t).HasNodes :=
        fun he => hasNodes_settle filename t (helse he ht)
      obtain ⟨es, hwarn, hes⟩ := settle_warn_behind hE hds
      rw [step_line filename (htakes.trans ht) hk, hwarn, settle_behind, fate_behind hnodes]
      obtain ⟨p, hf, -, hstep⟩ | ⟨a, hf, -, hstep⟩ := step_outcome filename ht hk
      · -- the line is reported
        rw [hstep, hf, Fate.enact, report_behind]
        exact ⟨_, rfl, hes.append_same _⟩
      · -- the line adds something
        rw [hf, Fate.enact, addTo?_behind, hstep, addTo?_diagnostics hstep]
        exact ⟨es, rfl, hes⟩

/-- **A run behind a document** goes as without it, but for more warnings. -/
theorem foldl_behind {ts : List LineToken} (hE : ∀ t ∈ ts, ∀ x, Repeats filename d t x → E x)
    (hds : Widened E r.diagnostics ds)
    (helse : ∀ before t after, ts = before ++ t :: after → t.kind = .otherwise →
      (before.foldl (step filename) r).takes t = false → (before.foldl (step filename) r).HasNodes) :
    ∃ es, ts.foldl (step filename) (r.behind d ds) = (ts.foldl (step filename) r).behind d es ∧
      Widened E (ts.foldl (step filename) r).diagnostics es := by
  induction ts generalizing r ds with
  | nil => exact ⟨ds, rfl, hds⟩
  | cons t ts ih =>
    obtain ⟨ht, hts⟩ := List.forall_mem_cons.mp hE
    obtain ⟨es, hstep, hes⟩ := step_behind ht hds (helse [] t ts rfl)
    rw [List.foldl_cons, List.foldl_cons, hstep]
    refine ih hts hes fun before u after hsplit => ?_
    exact helse (t :: before) u after (by rw [hsplit]; rfl)

end Reading

/-! ### Joined sources -/

variable {filename : Option Text}

theorem hasNodes_of_alike {n : Nat} {r s : Reading} (h : Alike (downward filename n) r s) (hr : r.HasNodes) :
    s.HasNodes := by
  have hroots := congrArg List.length h.roots
  rw [View.nodes_eq_map, View.nodes_eq_map, List.length_map, List.length_map] at hroots
  have hstack := h.stack.length_eq
  unfold Reading.HasNodes at hr ⊢
  rw [← List.length_pos_iff, ← List.length_pos_iff] at hr ⊢
  omega

/-- Where a markup line has been read, there is a node. -/
theorem hasNodes_of_markupLines {ts : List LineToken} (hts : ts.Pairwise fun a b => a.line < b.line)
    (h : markupLines filename ts ≠ []) : (Reading.run filename ts).HasNodes := by
  have hentries := (follows_run filename hts).entries
  by_contra hno
  obtain ⟨hs, hr⟩ := not_or.mp hno
  have hnil : (Reading.run filename ts).outline = [] := by
    unfold Reading.outline
    rw [not_not.mp hs, not_not.mp hr]
    rfl
  rw [hnil] at hentries
  exact h (List.forall₂_nil_left_iff.mp hentries)

/-- The document `s` is made of `d` and, behind it, `e`: a later mount block replaces an earlier one, of the servers the
first is kept, and the diagnostics of `e` come with more of a kind. -/
structure Joined (E : Diagnostic → Prop) (d e s : Document) : Prop where
  children : s.children = d.children ++ e.children
  state : s.script.state = d.script.state ++ e.script.state
  functions : s.script.functions = d.script.functions ++ e.script.functions
  services : s.script.services = d.script.services ++ e.script.services
  aliases : s.script.aliases = d.script.aliases ++ e.script.aliases
  mount : s.script.mount = e.script.mount.or d.script.mount
  server : s.script.server = d.script.server.or e.script.server
  diagnostics : ∃ ds, s.diagnostics = d.diagnostics ++ ds ∧ Widened E e.diagnostics ds

theorem joined_behind {E : Diagnostic → Prop} {d : Document} {ds : List Diagnostic} {r : Reading}
    (h : Widened E r.diagnostics ds) : Joined E d r.toDocument (r.behind d ds).toDocument :=
  ⟨rfl, rfl, rfl, rfl, rfl, rfl, rfl, ds, rfl, h⟩

/-- **Joined lines.**  Lines that start at the left margin, with no comment, and have a node before each `else` that no
capture takes, describe the same behind other lines. -/
theorem ofTokens_joined {ts us : List LineToken} (hmargin : ∀ t ∈ us.head?, t.indent = 0 ∧ t.kind ≠ .comment)
    (helse : ∀ before t after, us = before ++ t :: after → t.kind = .otherwise →
      (Reading.run filename before).takes t = false → (Reading.run filename before).HasNodes) :
    Joined (fun x => ∃ t ∈ us, Repeats filename (ofTokens filename ts) t x) (ofTokens filename ts)
      (ofTokens filename us) (ofTokens filename (ts ++ us)) := by
  -- the lines are read behind the finished document of the others
  have hclosed := (Reading.closed_finish filename (Reading.run filename ts)).eq_behind
  obtain ⟨ds, hrun, hds⟩ := Reading.foldl_behind (r := {}) (d := ofTokens filename ts)
    (E := fun x => ∃ t ∈ us, Repeats filename (ofTokens filename ts) t x) (fun t ht x hx => ⟨t, ht, hx⟩) .nil helse
  have hfinish : ((ts ++ us).foldl (Reading.step filename) {}).finish filename =
      ((Reading.run filename us).finish filename).behind (ofTokens filename ts)
        (ds ++ (Reading.run filename us).pendingReports filename) := by
    calc ((ts ++ us).foldl (Reading.step filename) {}).finish filename
      _ = (us.foldl (Reading.step filename) (Reading.run filename ts)).finish filename := by
          rw [List.foldl_append]
          rfl
      _ = (us.foldl (Reading.step filename) (Reading.behind (ofTokens filename ts) [] {})).finish filename := by
          rw [Reading.foldl_margin filename _ hmargin, hclosed]
          rfl
      _ = _ := by
          rw [hrun, Reading.finish_behind]
          rfl
  unfold ofTokens at hfinish ⊢
  rw [hfinish]
  refine joined_behind ?_
  rw [Reading.finish_diagnostics]
  exact hds.append_same _

/-- An `else` further down has a node before it, when it has a markup line before it. -/
theorem hasNodes_down (n : Nat) {ts : List LineToken} (hts : ts.Pairwise fun a b => a.line < b.line)
    (helse : ∀ before t after, ts = before ++ t :: after → t.kind = .otherwise →
      (Reading.run filename before).takes t = false → markupLines filename before ≠ []) :
    ∀ before t after, ts.map (LineToken.down n) = before ++ t :: after → t.kind = .otherwise →
      (Reading.run filename before).takes t = false → (Reading.run filename before).HasNodes := by
  intro before u after hsplit hk hu
  obtain ⟨before', rest, rfl, rfl, hrest⟩ := List.map_eq_append_iff.mp hsplit
  obtain ⟨t, after', rfl, rfl, rfl⟩ := List.map_eq_cons_iff.mp hrest
  have halike := alike_down filename n before'
  have ht : (Reading.run filename before').takes t = false :=
    (halike.takes (downward_token filename n t)).trans hu
  have hlines := helse before' t after' rfl hk ht
  exact hasNodes_of_alike halike (hasNodes_of_markupLines (List.pairwise_append.mp hts).1 hlines)

/-- **Joined sources.**  When the second source starts at the left margin, with no comment, and has a markup line before
each `else` that no capture takes, the two sources together describe the two documents, one behind the other; there may
be more warnings, each about a mount or server line of the second source that repeats what the first has. -/
theorem read_joined (filename : Option Text) {first second source : Text}
    (hlines : Text.lines source = Text.lines first ++ Text.lines second)
    (hmargin : ∀ t ∈ (LineToken.tokenize second).head?, t.indent = 0 ∧ t.kind ≠ .comment)
    (helse : ∀ before t after, LineToken.tokenize second = before ++ t :: after → t.kind = .otherwise →
      (Reading.run filename before).takes t = false → markupLines filename before ≠ []) :
    Joined
      (fun x => ∃ t ∈ (LineToken.tokenize second).map (LineToken.down (Text.lines first).length),
        Repeats filename (read filename first) t x)
      (read filename first) ((View.down (Text.lines first).length).document (read filename second))
      (read filename source) := by
  have hmargin' : ∀ t ∈ ((LineToken.tokenize second).map (LineToken.down (Text.lines first).length)).head?,
      t.indent = 0 ∧ t.kind ≠ .comment := by
    intro t ht
    rw [List.head?_map] at ht
    obtain ⟨u, hu, rfl⟩ := Option.map_eq_some_iff.mp ht
    exact hmargin u hu
  have helse' := hasNodes_down (Text.lines first).length (LineToken.pairwise_tokenize second) helse
  unfold read
  rw [← ofTokens_down, LineToken.tokenize_of_lines hlines]
  exact ofTokens_joined hmargin' helse'

/-- A source that ends in the literal block of a route, with a condition, a comment and another server behind it. -/
theorem read_joined_server :
    Text.lines "server A\n  get h /h\n    return\n      ok: 1\nif x\nelse\n# twice\nserver B" =
        Text.lines "server A\n  get h /h\n    return\n      ok: 1" ++ Text.lines "if x\nelse\n# twice\nserver B" ∧
      Joined
        (fun x => ∃ t ∈ (LineToken.tokenize "if x\nelse\n# twice\nserver B").map (LineToken.down 4),
          Repeats none (read none "server A\n  get h /h\n    return\n      ok: 1") t x)
        (read none "server A\n  get h /h\n    return\n      ok: 1")
        ((View.down 4).document (read none "if x\nelse\n# twice\nserver B"))
        (read none "server A\n  get h /h\n    return\n      ok: 1\nif x\nelse\n# twice\nserver B") := by
  have hlines : Text.lines "server A\n  get h /h\n    return\n      ok: 1\nif x\nelse\n# twice\nserver B" =
      Text.lines "server A\n  get h /h\n    return\n      ok: 1" ++ Text.lines "if x\nelse\n# twice\nserver B" := by
    decide
  have htokens : LineToken.tokenize "if x\nelse\n# twice\nserver B" =
      [⟨1, 0, .cond, "x", "if x"⟩, ⟨2, 0, .otherwise, [], "else"⟩, ⟨3, 0, .comment, "twice", "# twice"⟩,
        ⟨4, 0, .server, "B", "server B"⟩] := by
    decide
  refine ⟨hlines, read_joined none hlines ?_ ?_⟩
  · rw [htokens]
    simp
  · intro before t after hsplit hk _
    rw [htokens] at hsplit
    -- the only `else` is the second line
    rcases before with _ | ⟨u, _ | ⟨v, before⟩⟩
    · cases hsplit
      cases hk
    · cases hsplit
      decide +kernel
    · simp only [List.cons_append, List.cons.injEq] at hsplit
      have hmem : t ∈ before ++ t :: after := by simp
      rw [← hsplit.2.2] at hmem
      simp only [List.mem_cons, List.not_mem_nil, or_false] at hmem
      rcases hmem with rfl | rfl <;> cases hk

end Document

end Trellis
