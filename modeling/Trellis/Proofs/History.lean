import Mathlib.Data.List.Nodup
import Trellis.Proofs.Step
import Trellis.Proofs.Tokens

/-!
# What the lines of a source add

A line that a capture takes, a comment and a dropped line add nothing to a reading; every other line makes one
addition.  `contributions` lists the lines of the second kind, each with the lines behind it and what it adds.

* `reads_step`: the four ways to read a line, with what the line adds in each.
* `contributions_append`: the contributions of a text that is read in two parts.
* `foldl_added`: a part of a reading to which lines add one by one is what they added.
-/

namespace Trellis

theorem filterMap_toList {α β : Type} (f : α → Option β) (x : Option α) :
    x.toList.filterMap f = (x.bind f).toList := by
  cases x with
  | none => rfl
  | some a => cases h : f a <;> simp [h]

namespace Document

namespace Reading

/-- What the line adds when it is read after `r`. -/
def addition? (filename : Option Text) (t : LineToken) (r : Reading) : Option Addition :=
  if r.takes t || t.kind = .comment then none
  else match Fate.ofLine (r.settle filename t).context t with
    | .dropped _ => none
    | .added a => some a

/-- The ways to read a line: what it adds, and the reading that it leads to. -/
inductive Reads (filename : Option Text) (r : Reading) (t : LineToken) : Option Addition → Reading → Prop where
  | taken (ht : r.takes t = true) : Reads filename r t none (r.take t)
  | comment (ht : r.takes t = false) (hk : t.kind = .comment) : Reads filename r t none (r.closeCapture filename)
  | dropped (ht : r.takes t = false) (hk : t.kind ≠ .comment) (p : Problem) :
    Reads filename r t none (((r.settle filename t).warn filename t).report filename t p)
  | added {a : Addition} {s : Reading} (ht : r.takes t = false) (hk : t.kind ≠ .comment)
    (hfit : a.Fits (r.settle filename t).context t)
    (ha : a.addTo? filename t ((r.settle filename t).warn filename t) = some s) : Reads filename r t (some a) s

theorem reads_step (filename : Option Text) (r : Reading) (t : LineToken) :
    Reads filename r t (r.addition? filename t) (r.step filename t) := by
  cases ht : r.takes t with
  | true =>
    have ha : r.addition? filename t = none := by simp [addition?, ht]
    rw [ha, step_takes filename ht]
    exact .taken ht
  | false =>
    by_cases hk : t.kind = .comment
    · have ha : r.addition? filename t = none := by simp [addition?, hk]
      rw [ha, step_comment filename ht hk]
      exact .comment ht hk
    · obtain ⟨p, hf, -, hstep⟩ | ⟨a, hf, hfit, hstep⟩ := step_outcome filename ht hk
      · have ha : r.addition? filename t = none := by simp [addition?, ht, hk, hf]
        rw [ha, hstep]
        exact .dropped ht hk p
      · have ha : r.addition? filename t = some a := by simp [addition?, ht, hk, hf]
        rw [ha]
        exact .added ht hk hfit hstep

theorem addition?_of_takes {filename : Option Text} {r : Reading} {t : LineToken} (h : r.takes t = true) :
    r.addition? filename t = none := by
  simp [addition?, h]

end Reading

/-! ### Contributions -/

/-- A line that adds something, with the lines behind it. -/
structure Contribution where
  line : LineToken
  behind : List LineToken
  addition : Addition

/-- The lines that add something when they are read after `r`, in order. -/
def contributions (filename : Option Text) (r : Reading) : List LineToken → List Contribution
  | [] => []
  | t :: ts => ((r.addition? filename t).map (⟨t, ts, ·⟩)).toList ++ contributions filename (r.step filename t) ts

/-- The same line with more lines behind it. -/
def Contribution.extend (us : List LineToken) (k : Contribution) : Contribution := { k with behind := k.behind ++ us }

variable {filename : Option Text} {r : Reading} {t : LineToken} {ts us : List LineToken} {k k' : Contribution}

theorem contributions_append (r : Reading) (ts us : List LineToken) :
    contributions filename r (ts ++ us) =
      (contributions filename r ts).map (·.extend us) ++
        contributions filename (ts.foldl (Reading.step filename) r) us := by
  induction ts generalizing r with
  | nil => rfl
  | cons t ts ih =>
    rw [List.cons_append, contributions, ih, contributions, List.map_append, List.append_assoc]
    cases r.addition? filename t <;> rfl

theorem lines_sublist (r : Reading) (ts : List LineToken) :
    ((contributions filename r ts).map (·.line)).Sublist ts := by
  induction ts generalizing r with
  | nil => exact .slnil
  | cons t ts ih =>
    rw [contributions, List.map_append]
    cases r.addition? filename t with
    | none => exact (ih _).cons t
    | some a => exact (ih _).cons_cons t

theorem line_mem (h : k ∈ contributions filename r ts) : k.line ∈ ts :=
  (lines_sublist r ts).mem (List.mem_map_of_mem h)

/-- A contribution is the reading of its line after the lines before it. -/
theorem mem_contributions_iff :
    k ∈ contributions filename r ts ↔
      ∃ before, ts = before ++ k.line :: k.behind ∧
        (before.foldl (Reading.step filename) r).addition? filename k.line = some k.addition := by
  induction ts generalizing r with
  | nil =>
    constructor
    · intro h
      cases h
    · rintro ⟨before, h, -⟩
      exact absurd h.symm (by simp)
  | cons t ts ih =>
    rw [contributions, List.mem_append, ih]
    constructor
    · -- the first line contributes, or a later one does
      rintro (h | ⟨before, rfl, ha⟩)
      · obtain ⟨a, ha, rfl⟩ := Option.map_eq_some_iff.mp (Option.mem_toList.mp h)
        exact ⟨[], rfl, ha⟩
      · exact ⟨t :: before, rfl, ha⟩
    · rintro ⟨before, h, ha⟩
      cases before with
      | nil =>
        obtain ⟨rfl, rfl⟩ := List.cons.inj h
        have ha : r.addition? filename k.line = some k.addition := ha
        exact .inl (Option.mem_toList.mpr (by rw [ha]; rfl))
      | cons b before =>
        obtain ⟨rfl, rfl⟩ := List.cons.inj h
        exact .inr ⟨before, rfl, ha⟩

/-- A line contributes once. -/
theorem eq_of_line_eq (hts : ts.Pairwise fun a b => a.line < b.line) (hk : k ∈ contributions filename r ts)
    (hk' : k' ∈ contributions filename r ts) (h : k.line.line = k'.line.line) : k = k' := by
  have hlines : ((contributions filename r ts).map (·.line)).Pairwise fun a b => a.line < b.line :=
    hts.sublist (lines_sublist r ts)
  have hnodup : ((contributions filename r ts).map (·.line.line)).Nodup := by
    refine List.pairwise_map.mpr ((List.pairwise_map.mp hlines).imp fun hlt => ?_)
    omega
  exact List.inj_on_of_nodup_map hnodup hk hk' h

/-- The contributions of lines in the middle of a text. -/
theorem contributions_within {before after : List LineToken}
    (hts : (before ++ us ++ after).Pairwise fun a b => a.line < b.line) :
    (k ∈ contributions filename r (before ++ us ++ after) ∧ ∃ u ∈ us, k.line.line = u.line) ↔
      ∃ k' ∈ contributions filename (before.foldl (Reading.step filename) r) us, k = k'.extend after := by
  rw [contributions_append, contributions_append, List.map_append, List.mem_append, List.mem_append]
  constructor
  · rintro ⟨hk, u, hu, hline⟩
    rw [List.pairwise_append, List.pairwise_append] at hts
    obtain ⟨⟨-, -, hbefore⟩, -, hafter⟩ := hts
    obtain (hk | hk) | hk := hk
    · obtain ⟨k₁, hk₁, rfl⟩ := List.mem_map.mp hk
      obtain ⟨k₂, hk₂, rfl⟩ := List.mem_map.mp hk₁
      have hlt : k₂.line.line < u.line := hbefore _ (line_mem hk₂) u hu
      exact absurd hline (Nat.ne_of_lt hlt)
    · obtain ⟨k', hk', rfl⟩ := List.mem_map.mp hk
      exact ⟨k', hk', rfl⟩
    · have hlt : u.line < k.line.line := hafter u (List.mem_append_right _ hu) _ (line_mem hk)
      exact absurd hline (Nat.ne_of_gt hlt)
  · rintro ⟨k', hk', rfl⟩
    exact ⟨.inl (.inr (List.mem_map_of_mem hk')), k'.line, line_mem hk', rfl⟩

/-! ### What is added, by kind -/

namespace Addition

/-- The state variable that is added outside servers. -/
def state? (l : Location) : Addition → Option StateDecl
  | .state type name value => some ⟨type, name, value, l⟩
  | _ => none

/-- The state variable that is added to the open server. -/
def serverState? (l : Location) : Addition → Option StateDecl
  | .serverState type name value => some ⟨type, name, value, l⟩
  | _ => none

theorem serverState?_eq_some_iff {a : Addition} {l : Location} {x : StateDecl} :
    a.serverState? l = some x ↔ a = .serverState x.typeName x.name x.value ∧ x.location = l := by
  constructor
  · intro h
    cases a with
    | serverState type name value =>
      cases h
      exact ⟨rfl, rfl⟩
    | _ => cases h
  · rintro ⟨rfl, rfl⟩
    rfl

def alias? (l : Location) : Addition → Option Alias
  | .aliasOf source name => some ⟨source, name, l⟩
  | _ => none

def capture? (filename : Option Text) (t : LineToken) : Addition → Option Capture
  | .capture head => some { indent := t.indent, head := head, location := Reading.locate filename t }
  | _ => none

def server? (filename : Option Text) (t : LineToken) : Addition → Option OpenServer
  | .server name port => some ⟨t.indent, ⟨name, port, [], [], Reading.locate filename t⟩⟩
  | _ => none

end Addition

/-- The open server with more state and routes. -/
def OpenServer.extend (states : List StateDecl) (routes : List Route) (o : OpenServer) : OpenServer :=
  { o with server.state := o.server.state ++ states, server.routes := o.server.routes ++ routes }

@[simp] theorem OpenServer.extend_nil (o : OpenServer) : o.extend [] [] = o := by
  simp [OpenServer.extend]

@[simp] theorem OpenServer.extend_extend (o : OpenServer) (ss ss' : List StateDecl) (rs rs' : List Route) :
    (o.extend ss rs).extend ss' rs' = o.extend (ss ++ ss') (rs ++ rs') := by
  simp [OpenServer.extend, List.append_assoc]

@[simp] theorem OpenServer.extend_indent (o : OpenServer) (ss : List StateDecl) (rs : List Route) :
    (o.extend ss rs).indent = o.indent := rfl

/-- The parts of a reading that lines outside bodies add to. -/
structure Addition.Parts (filename : Option Text) (t : LineToken) (a : Addition) (r s : Reading) : Prop where
  state : s.state = r.state ++ (a.state? (Reading.locate filename t)).toList
  aliases : s.aliases = r.aliases ++ (a.alias? (Reading.locate filename t)).toList
  capture : s.capture = a.capture? filename t
  openServer : s.openServer = (a.server? filename t).or
    (r.openServer.map (·.extend (a.serverState? (Reading.locate filename t)).toList []))

theorem Addition.addTo?_parts {a : Addition} {s : Reading} (hc : r.capture = none)
    (h : a.addTo? filename t r = some s) : a.Parts filename t r s := by
  -- what goes onto the top of the stack touches no declaration
  have htop : ∀ change, r.onTop? change = some s →
      s.state = r.state ∧ s.aliases = r.aliases ∧ s.capture = none ∧ s.openServer = r.openServer := by
    intro change h
    obtain ⟨f, fs, f', -, -, rfl⟩ := Reading.onTop?_eq_some h
    exact ⟨rfl, rfl, hc, rfl⟩
  have hid : r.openServer.map (·.extend [] []) = r.openServer := by simp
  cases a with
  | state type name value =>
    cases h
    exact ⟨rfl, (List.append_nil _).symm, hc, hid.symm⟩
  | serverState type name value =>
    obtain ⟨o, ho, rfl⟩ := Option.map_eq_some_iff.mp h
    refine ⟨(List.append_nil _).symm, (List.append_nil _).symm, hc, ?_⟩
    rw [ho]
    simp [serverState?, server?, OpenServer.extend]
  | aliasOf source name =>
    cases h
    exact ⟨(List.append_nil _).symm, rfl, hc, hid.symm⟩
  | capture head =>
    -- a capture is opened only when none is open
    simp only [addTo?] at h
    split at h <;> cases h
    exact ⟨(List.append_nil _).symm, (List.append_nil _).symm, rfl, hid.symm⟩
  | server name port =>
    simp only [addTo?] at h
    split at h <;> cases h
    exact ⟨(List.append_nil _).symm, (List.append_nil _).symm, hc, rfl⟩
  | node head =>
    cases h
    exact ⟨(List.append_nil _).symm, (List.append_nil _).symm, hc, hid.symm⟩
  | property key value =>
    obtain ⟨hs, ha, hc, ho⟩ := htop _ h
    exact ⟨hs.trans (List.append_nil _).symm, ha.trans (List.append_nil _).symm, hc, ho.trans hid.symm⟩
  | tag name =>
    obtain ⟨hs, ha, hc, ho⟩ := htop _ h
    exact ⟨hs.trans (List.append_nil _).symm, ha.trans (List.append_nil _).symm, hc, ho.trans hid.symm⟩
  | loopKey expression =>
    obtain ⟨hs, ha, hc, ho⟩ := htop _ h
    exact ⟨hs.trans (List.append_nil _).symm, ha.trans (List.append_nil _).symm, hc, ho.trans hid.symm⟩

namespace Reading

theorem declare_frame (filename : Option Text) (c : Capture) (r : Reading) :
    r.declare filename c = { r with
      functions := (r.declare filename c).functions, services := (r.declare filename c).services
      mount := (r.declare filename c).mount, openServer := (r.declare filename c).openServer
      diagnostics := (r.declare filename c).diagnostics } := by
  unfold declare
  cases c.head <;> rfl

theorem closeServer_frame (r : Reading) :
    r.closeServer = { r with openServer := r.closeServer.openServer, server := r.closeServer.server } := by
  unfold closeServer
  cases r.openServer <;> rfl

theorem closeCapture_frame (filename : Option Text) (r : Reading) :
    r.closeCapture filename = { r with
      capture := none
      functions := (r.closeCapture filename).functions, services := (r.closeCapture filename).services
      mount := (r.closeCapture filename).mount, openServer := (r.closeCapture filename).openServer
      diagnostics := (r.closeCapture filename).diagnostics } := by
  unfold closeCapture
  cases hc : r.capture with
  | none =>
    show r = { r with capture := none }
    rw [← hc]
  | some c => exact declare_frame filename c { r with capture := none }

theorem settle_frame (filename : Option Text) (t : LineToken) (r : Reading) :
    r.settle filename t = { r.closeCapture filename with
      stack := (r.settle filename t).stack, roots := (r.settle filename t).roots
      openServer := (r.settle filename t).openServer, server := (r.settle filename t).server } := by
  simp only [settle]
  split
  · rfl
  · rw [closeServer_frame]
    rfl

theorem settle_state : (r.settle filename t).state = r.state := by
  rw [settle_frame, closeCapture_frame]

theorem settle_aliases : (r.settle filename t).aliases = r.aliases := by
  rw [settle_frame, closeCapture_frame]

namespace Reads

variable {x : Option Addition} {s : Reading}

theorem state (h : Reads filename r t x s) :
    s.state = r.state ++ (x.bind (Addition.state? (locate filename t))).toList := by
  cases h with
  | taken ht => exact (List.append_nil _).symm
  | comment ht hk =>
    rw [closeCapture_frame]
    exact (List.append_nil _).symm
  | dropped ht hk p => exact settle_state.trans (List.append_nil _).symm
  | added ht hk hfit ha =>
    have hparts := Addition.addTo?_parts (r := (r.settle filename t).warn filename t) settle_capture ha
    exact hparts.state.trans (congrArg (· ++ _) settle_state)

theorem aliases (h : Reads filename r t x s) :
    s.aliases = r.aliases ++ (x.bind (Addition.alias? (locate filename t))).toList := by
  cases h with
  | taken ht => exact (List.append_nil _).symm
  | comment ht hk =>
    rw [closeCapture_frame]
    exact (List.append_nil _).symm
  | dropped ht hk p => exact settle_aliases.trans (List.append_nil _).symm
  | added ht hk hfit ha =>
    have hparts := Addition.addTo?_parts (r := (r.settle filename t).warn filename t) settle_capture ha
    exact hparts.aliases.trans (congrArg (· ++ _) settle_aliases)

/-- After a line that was not taken the open capture is the one that the line opens. -/
theorem capture (h : Reads filename r t x s) (ht : r.takes t = false) :
    s.capture = x.bind (Addition.capture? filename t) := by
  cases h with
  | taken ht' => exact absurd (ht.symm.trans ht') (by simp)
  | comment _ hk => exact closeCapture_capture
  | dropped _ hk p => exact settle_capture
  | added _ hk hfit ha =>
    exact (Addition.addTo?_parts (r := (r.settle filename t).warn filename t) settle_capture ha).capture

/-- A line that is not taken declares what the open capture has collected, and nothing else. -/
theorem declared (h : Reads filename r t x s) (ht : r.takes t = false) :
    s.functions = (r.closeCapture filename).functions ∧ s.services = (r.closeCapture filename).services ∧
      s.mount = (r.closeCapture filename).mount := by
  have hsettle : (r.settle filename t).functions = (r.closeCapture filename).functions ∧
      (r.settle filename t).services = (r.closeCapture filename).services ∧
      (r.settle filename t).mount = (r.closeCapture filename).mount := by
    rw [settle_frame]
    exact ⟨rfl, rfl, rfl⟩
  cases h with
  | taken ht' => exact absurd (ht.symm.trans ht') (by simp)
  | comment _ hk => exact ⟨rfl, rfl, rfl⟩
  | dropped _ hk p => exact hsettle
  | added _ hk hfit ha =>
    rw [(Addition.addTo?_effect ha).frame]
    exact hsettle

end Reads

/-- A part of a reading to which the lines add one by one is what they added. -/
theorem foldl_added {β : Type} {part : Reading → List β} {added? : LineToken → Addition → Option β}
    (h : ∀ {r t x s}, Reads filename r t x s → part s = part r ++ (x.bind (added? t)).toList)
    (r : Reading) (ts : List LineToken) :
    part (ts.foldl (step filename) r) =
      part r ++ (contributions filename r ts).filterMap fun k => added? k.line k.addition := by
  induction ts generalizing r with
  | nil => exact (List.append_nil _).symm
  | cons t ts ih =>
    rw [List.foldl_cons, ih, h (reads_step filename r t), contributions, List.filterMap_append, List.append_assoc,
      filterMap_toList]
    cases r.addition? filename t <;> rfl

end Reading

end Document

end Trellis
