import Trellis.Proofs.Fate

/-!
# What one line does to a reading

`Reading.step` reads a line through a dozen handlers.  This module says once what they can do, so that no later
proof opens a handler again.

* `takes r t`: the open capture collects the line `t` as it stands.
* `settle`: what the line ends, whatever it is: the capture, the server it is not inside of, and the markup nodes
  that it is not deeper than.
* `step_line`: the step is the fate of the line, carried out on the settled reading.
* `step_outcome`: the same as a case distinction.
-/

namespace Trellis.Document

/-! ### Carrying out a fate -/

namespace Frame

/-- Adds a property; conditions and loops take none. -/
def addProperty? (p : Property) (f : Frame) : Option Frame :=
  match f.head with
  | .element _ _ | .pseudo _ => some { f with properties := f.properties ++ [p] }
  | .condition _ | .loop _ _ _ _ => none

/-- Sets the explicit tag of an element. -/
def setTag? (name : Text) (f : Frame) : Option Frame :=
  match f.head with
  | .element kind _ => some { f with head := .element kind (some name) }
  | _ => none

def setKey? (expression : Text) (f : Frame) : Option Frame :=
  match f.head with
  | .loop item index collection _ => some { f with head := .loop item index collection (some expression) }
  | _ => none

variable {f f' : Frame}

theorem addProperty?_eq_some {p : Property} (h : addProperty? p f = some f') :
    f' = { f with properties := f.properties ++ [p] } := by
  unfold addProperty? at h
  split at h <;> cases h <;> rfl

theorem setTag?_eq_some {name : Text} (h : setTag? name f = some f') :
    ∃ kind tag, f.head = .element kind tag ∧ f' = { f with head := .element kind (some name) } := by
  unfold setTag? at h
  split at h <;> cases h
  exact ⟨_, _, ‹_›, rfl⟩

theorem setKey?_eq_some {expression : Text} (h : setKey? expression f = some f') :
    ∃ item index collection key, f.head = .loop item index collection key ∧
      f' = { f with head := .loop item index collection (some expression) } := by
  unfold setKey? at h
  split at h <;> cases h
  exact ⟨_, _, _, _, ‹_›, rfl⟩

end Frame

namespace Reading

/-- Changes the innermost open markup node. -/
def onTop? (change : Frame → Option Frame) (r : Reading) : Option Reading :=
  match r.stack with
  | [] => none
  | f :: fs => (change f).map fun f => { r with stack := f :: fs }

end Reading

/-- The reading with an addition made by the line `t`; nothing when the reading has no place for it. -/
def Addition.addTo? (filename : Option Text) (t : LineToken) (r : Reading) : Addition → Option Reading
  | .state type name value =>
    some { r with state := r.state ++ [⟨type, name, value, Reading.locate filename t⟩] }
  | .serverState type name value =>
    r.openServer.map fun o =>
      { r with openServer := some { o with
          server.state := o.server.state ++ [⟨type, name, value, Reading.locate filename t⟩] } }
  | .aliasOf source name => some { r with aliases := r.aliases ++ [⟨source, name, Reading.locate filename t⟩] }
  | .capture head => if r.capture.isSome then none else some (r.openCapture filename t head)
  | .server name port =>
    if r.openServer.isSome then none
    else some { r with openServer := some ⟨t.indent, ⟨name, port, [], [], Reading.locate filename t⟩⟩ }
  | .node head => some (r.push filename t head)
  | .property key value => r.onTop? (Frame.addProperty? ⟨key, value, Reading.locate filename t⟩)
  | .tag name => r.onTop? (Frame.setTag? name)
  | .loopKey expression => r.onTop? (Frame.setKey? expression)

namespace Reading

/-- The open capture collects the line. -/
def takes (r : Reading) (t : LineToken) : Bool :=
  match r.capture with
  | some c => c.indent < t.indent
  | none => false

/-- The reading with the line collected by the open capture. -/
def take (t : LineToken) (r : Reading) : Reading :=
  { r with capture := r.capture.map fun c => { c with lines := c.lines ++ [t.toBodyLine] } }

/-- The line is inside the open server. -/
def holds (r : Reading) (t : LineToken) : Bool :=
  match r.openServer with
  | some o => o.indent < t.indent
  | none => false

/-- Ends what a line that is no comment ends: the capture, and unless the line is inside the open server, that server
and the markup nodes that the line is not deeper than. -/
def settle (filename : Option Text) (t : LineToken) (r : Reading) : Reading :=
  let r := r.closeCapture filename
  if r.holds t then r else r.closeServer.popTo t.indent

/-- What the fate of the next line depends on. -/
def context (r : Reading) : Context :=
  { inServer := r.openServer.isSome
    parent := r.stack.head?.map (·.head)
    afterIf := match r.lastSibling? with
      | some (.condition (.when _) _ _) => true
      | _ => false }

/-- The warnings about a line: a second mount block, a second server. -/
def warnings (r : Reading) (t : LineToken) : List Problem :=
  if r.openServer.isSome then []
  else match t.kind with
    | .server => if r.server.isSome then [.duplicateServer] else []
    | .onMount => if r.mount.isSome && (t.text = [] || t.text = [':']) then [.duplicateMount] else []
    | _ => []

/-- The reading with the warnings about a line. -/
def warn (filename : Option Text) (t : LineToken) (r : Reading) : Reading :=
  { r with diagnostics := r.diagnostics ++ (r.warnings t).map fun p => p.diagnose filename t.line t.raw }

end Reading

def isIf : Node → Bool
  | .condition (.when _) _ _ => true
  | _ => false

theorem context_afterIf (r : Reading) : r.context.afterIf = (r.lastSibling?.map isIf).getD false := by
  unfold Reading.context
  cases r.lastSibling? with
  | none => rfl
  | some n =>
    cases n with
    | condition branch cs l => cases branch <;> rfl
    | _ => rfl

/-- Carries out a fate: a dropped line is reported, an added one makes its addition. -/
def Fate.enact (filename : Option Text) (t : LineToken) (r : Reading) : Fate → Reading
  | .dropped p => r.report filename t p
  | .added a => (a.addTo? filename t r).getD r

namespace Reading

variable {filename : Option Text} {t : LineToken} {r : Reading}

/-! ### Reports and warnings touch the diagnostics only -/

@[simp] theorem warn_capture : (r.warn filename t).capture = r.capture := rfl
@[simp] theorem warn_openServer : (r.warn filename t).openServer = r.openServer := rfl

theorem warn_of_nil (h : r.warnings t = []) : r.warn filename t = r := by
  unfold warn
  rw [h]
  simp

theorem warn_of_singleton {p : Problem} (h : r.warnings t = [p]) :
    r.warn filename t = r.report filename t p := by
  unfold warn
  rw [h]
  rfl

theorem warnings_of_inServer (h : r.openServer.isSome) : r.warnings t = [] := by
  unfold warnings
  rw [if_pos h]

/-! ### The handlers -/

theorem enact_capture (h : r.capture = none) (head : CaptureHead) :
    (Fate.added (.capture head)).enact filename t r = r.openCapture filename t head := by
  simp [Fate.enact, Addition.addTo?, h]

theorem readServerLine_eq {o : OpenServer} (h : r.openServer = some o) (hc : r.capture = none) :
    r.readServerLine filename t o = (Fate.inServer t).enact filename t r := by
  unfold readServerLine Fate.inServer
  cases t.kind with
  | state =>
    simp only [stateDecl?]
    cases Form.state? t.text <;> simp [Fate.ofForm, Fate.enact, Addition.addTo?, h]
  | route verb =>
    cases Form.route? t.text with
    | none => rfl
    | some parts => exact (enact_capture hc _).symm
  | _ => rfl

theorem pushMarkup_eq (head : Head) :
    r.pushMarkup filename t head = (Fate.ofMarkup r.context.parent head).enact filename t r := by
  unfold pushMarkup insidePseudo Fate.ofMarkup context
  cases r.stack with
  | nil => rfl
  | cons f fs => rcases f with ⟨i, head', l, ps, cs⟩; cases head' <;> rfl

theorem readPseudo_eq :
    r.readPseudo filename t = (Fate.ofPseudo r.context.parent t.text).enact filename t r := by
  unfold readPseudo Fate.ofPseudo context
  by_cases ht : t.text.isEmpty
  · rw [if_pos ht, if_pos ht]; rfl
  · rw [if_neg ht, if_neg ht]
    cases r.stack with
    | nil => rfl
    | cons f fs => rcases f with ⟨i, head, l, ps, cs⟩; cases head <;> rfl

theorem readElse_eq :
    r.readElse filename t =
      (if r.context.afterIf then Fate.added (.node (.condition .otherwise))
        else .dropped .elseWithoutIf).enact filename t r := by
  unfold readElse context
  cases r.lastSibling? with
  | none => rfl
  | some n =>
    cases n with
    | condition branch cs l => cases branch <;> rfl
    | _ => rfl

theorem readProperty_eq :
    r.readProperty filename t = (Fate.ofProperty r.context.parent t.text).enact filename t r := by
  unfold readProperty Fate.ofProperty context
  cases Form.property? t.text with
  | none => rfl
  | some parts =>
    obtain ⟨key, raw⟩ := parts
    cases hs : r.stack with
    | nil => rfl
    | cons f fs =>
      simp only [List.head?_cons, Option.map_some]
      cases hf : f.head with
      | element kind tag =>
        -- a `tag` sets the tag of the element if its value is static
        by_cases hk : key = "tag"
        · simp only [if_pos hk]
          cases Value.classify (raw.getD []) <;>
            simp [Fate.enact, Addition.addTo?, onTop?, Frame.setTag?, hs, hf]
        · simp only [if_neg hk]
          simp [Fate.enact, Addition.addTo?, onTop?, Frame.addProperty?, hs, hf]
      | pseudo selector => simp [Fate.enact, Addition.addTo?, onTop?, Frame.addProperty?, hs, hf]
      | condition branch => rfl
      | loop item index collection k =>
        cases raw with
        | none => simp [Fate.enact]
        | some e =>
          -- of a loop only the key can be set
          by_cases hk : (key = "key" && !e.isEmpty) = true
          · simp only [Option.getD_some, if_pos hk]
            simp [Fate.enact, Addition.addTo?, onTop?, Frame.setKey?, hs, hf]
          · simp only [Option.getD_some, if_neg hk]
            rfl

theorem warn_of_other (h1 : t.kind ≠ .server) (h2 : t.kind ≠ .onMount) : r.warn filename t = r := by
  apply warn_of_nil
  unfold warnings
  by_cases ho : r.openServer.isSome
  · rw [if_pos ho]
  · rw [if_neg ho]
    split
    · exact absurd ‹_› h1
    · exact absurd ‹_› h2
    · rfl

theorem readServer_eq (ho : r.openServer = none) (hk : t.kind = .server) :
    r.readServer filename t =
      (Fate.ofForm .malformedServer (fun (name, port) => .server name port) (Form.server? t.text)).enact
        filename t (r.warn filename t) := by
  have hw : r.warn filename t = if r.server.isSome then r.report filename t .duplicateServer else r := by
    by_cases hs : r.server.isSome
    · rw [if_pos hs]
      exact warn_of_singleton (by simp [warnings, ho, hk, hs])
    · rw [if_neg hs]
      exact warn_of_nil (by simp [warnings, ho, hk, hs])
  unfold readServer
  rw [← hw]
  cases Form.server? t.text with
  | none => rfl
  | some parts => simp [Fate.ofForm, Fate.enact, Addition.addTo?, ho]

theorem readMount_eq (ho : r.openServer = none) (hc : r.capture = none) (hk : t.kind = .onMount) :
    r.readMount filename t =
      (if t.text = [] || t.text = [':'] then Fate.added (.capture .mount) else .dropped .malformedMount).enact
        filename t (r.warn filename t) := by
  unfold readMount
  by_cases ht : (t.text = [] || t.text = [':']) = true
  · have hw : r.warn filename t = if r.mount.isSome then r.report filename t .duplicateMount else r := by
      by_cases hm : r.mount.isSome
      · rw [if_pos hm]
        exact warn_of_singleton (by simp [warnings, ho, hk, hm, ht])
      · rw [if_neg hm]
        exact warn_of_nil (by simp [warnings, ho, hk, hm])
    rw [if_pos ht, if_pos ht, ← hw]
    exact (enact_capture (r := r.warn filename t) hc _).symm
  · have hw : r.warn filename t = r := by
      exact warn_of_nil (by simp [warnings, ho, hk, ht])
    rw [if_neg ht, if_neg ht, hw]
    rfl

/-- A line that no capture and no server takes, after the markup nodes it ends are closed. -/
theorem readLine_eq (ho : r.openServer = none) (hc : r.capture = none) (hk : t.kind ≠ .comment) :
    r.readLine filename t =
      (Fate.outside (r.popTo t.indent).context t).enact filename t ((r.popTo t.indent).warn filename t) := by
  have ho' : (r.popTo t.indent).openServer = none := ho
  have hc' : (r.popTo t.indent).capture = none := hc
  unfold readLine Fate.outside
  generalize r.popTo t.indent = s at ho' hc' ⊢
  -- only server and mount lines are warned about
  by_cases h1 : t.kind = .server
  · simp only [h1]
    exact readServer_eq ho' h1
  by_cases h2 : t.kind = .onMount
  · simp only [h2]
    exact readMount_eq ho' hc' h2
  rw [warn_of_other h1 h2]
  cases hkind : t.kind with
  | comment => exact absurd hkind hk
  | server => exact absurd hkind h1
  | onMount => exact absurd hkind h2
  | state =>
    simp only [readState, stateDecl?]
    cases Form.state? t.text <;> rfl
  | fn =>
    simp only [readFunction]
    cases Form.function? t.text with
    | none => rfl
    | some parts => exact (enact_capture hc' _).symm
  | route verb => rfl
  | property => exact readProperty_eq
  | pseudo => exact readPseudo_eq
  | cond => exact pushMarkup_eq _
  | otherwise => exact readElse_eq
  | loop =>
    simp only [readLoop]
    cases Form.loop? t.text with
    | none => rfl
    | some parts => exact pushMarkup_eq _
  | service =>
    simp only [readService]
    cases Form.service? t.text with
    | none => rfl
    | some parts => exact (enact_capture hc' _).symm
  | use =>
    simp only [readUse]
    cases Form.aliasOf? t.text <;> rfl
  | element =>
    simp only [readElement]
    by_cases he : Form.isElement t.text
    · rw [if_pos he, if_pos he]; exact pushMarkup_eq _
    · rw [if_neg he, if_neg he]; rfl
  | unknown => rfl

/-! ### Settling -/

theorem declare_capture (c : Capture) : (r.declare filename c).capture = r.capture := by
  unfold declare
  cases c.head <;> rfl

theorem closeCapture_capture : (r.closeCapture filename).capture = none := by
  unfold closeCapture
  split
  · assumption
  · exact declare_capture _

theorem closeServer_openServer : r.closeServer.openServer = none := by
  unfold closeServer
  cases ho : r.openServer with
  | none => exact ho
  | some o => rfl

theorem closeServer_capture : r.closeServer.capture = r.capture := by
  unfold closeServer
  cases r.openServer <;> rfl

theorem settle_capture : (r.settle filename t).capture = none := by
  simp only [settle]
  split
  · exact closeCapture_capture
  · exact closeServer_capture.trans closeCapture_capture

/-- What closing one open node keeps, into its parent or at the top, closing several keeps. -/
theorem closeFrames_keeps {P : List Frame → List Node → Prop}
    (root : ∀ f roots, P [f] roots → P [] (roots ++ [f.close]))
    (inner : ∀ f (g : Frame) fs roots, P (f :: g :: fs) roots →
      P ({ g with children := g.children ++ [f.close] } :: fs) roots)
    (indent : Nat) {stack : List Frame} {roots : List Node} (h : P stack roots) :
    P (closeFrames indent stack roots).1 (closeFrames indent stack roots).2 := by
  induction stack, roots using closeFrames.induct indent with
  | case1 roots =>
    rw [closeFrames]
    exact h
  | case2 f fs roots hlt =>
    rw [closeFrames.eq_def]
    simp only [if_pos hlt]
    exact h
  | case3 f roots hlt =>
    rw [closeFrames, if_neg hlt]
    exact root f roots h
  | case4 f roots hlt g gs ih =>
    rw [closeFrames, if_neg hlt]
    exact ih (inner f g gs roots h)

/-- A settled reading has a server open just when the line is inside it. -/
theorem settle_openServer :
    (r.settle filename t).openServer.isSome = (r.closeCapture filename).holds t := by
  unfold settle
  by_cases hh : (r.closeCapture filename).holds t = true
  · rw [if_pos hh, hh]
    unfold holds at hh
    split at hh
    · rename_i o ho; simp [ho]
    · exact absurd hh (by simp)
  · rw [if_neg hh, Bool.not_eq_true _ |>.mp hh]
    show (r.closeCapture filename).closeServer.openServer.isSome = false
    rw [closeServer_openServer]
    rfl

/-! ### One step -/

variable (filename)

theorem step_takes (h : r.takes t = true) : r.step filename t = r.take t := by
  unfold takes at h
  unfold step take
  cases hc : r.capture with
  | none => simp [hc] at h
  | some c =>
    simp only [hc, decide_eq_true_eq] at h
    simp [h]

theorem step_of_not_takes (h : r.takes t = false) :
    r.step filename t = (r.closeCapture filename).readOutside filename t := by
  unfold takes at h
  unfold step
  cases hc : r.capture with
  | none => simp [closeCapture, hc]
  | some c =>
    simp only [hc, decide_eq_false_iff_not] at h
    simp [h]

theorem step_comment (h : r.takes t = false) (hk : t.kind = .comment) :
    r.step filename t = r.closeCapture filename := by
  rw [step_of_not_takes filename h]
  unfold readOutside
  rw [if_pos hk]

theorem exists_of_holds (h : r.holds t = true) : ∃ o, r.openServer = some o ∧ o.indent < t.indent := by
  unfold holds at h
  split at h
  · next o ho => exact ⟨o, ho, of_decide_eq_true h⟩
  · cases h

/-- **One line.**  A line that is neither taken nor a comment meets its fate in the settled reading. -/
theorem step_line (h : r.takes t = false) (hk : t.kind ≠ .comment) :
    r.step filename t =
      (Fate.ofLine (r.settle filename t).context t).enact filename t ((r.settle filename t).warn filename t) := by
  rw [step_of_not_takes filename h]
  have hc : (r.closeCapture filename).capture = none := closeCapture_capture
  have hin : (r.settle filename t).context.inServer = (r.closeCapture filename).holds t := settle_openServer
  unfold readOutside Fate.ofLine
  rw [if_neg hk, hin]
  unfold settle
  simp only
  generalize r.closeCapture filename = s at hc hin ⊢
  by_cases hh : s.holds t = true
  · -- the line is inside a server, where nothing is warned about
    rw [if_pos hh, if_pos hh]
    obtain ⟨o, ho, hlt⟩ := exists_of_holds hh
    have hw : s.warn filename t = s := warn_of_nil (warnings_of_inServer (by simp [ho]))
    rw [ho, hw]
    exact (if_pos hlt).trans (readServerLine_eq ho hc)
  · -- the line is outside; a server that was open is closed first
    rw [if_neg hh, if_neg hh]
    have hcs : s.closeServer.capture = none := closeServer_capture.trans hc
    have hmain : s.closeServer.readLine filename t = _ := readLine_eq closeServer_openServer hcs hk
    cases ho : s.openServer with
    | none =>
      have hclose : s.closeServer = s := by unfold closeServer; rw [ho]
      rw [hclose] at hmain ⊢
      exact hmain
    | some o =>
      have hlt : ¬ o.indent < t.indent := by
        intro hlt
        exact hh (by simp [holds, ho, hlt])
      simp only [if_neg hlt]
      exact hmain

end Reading

/-! ### Many lines -/

/-- The reading after some lines. -/
def Reading.run (filename : Option Text) (ts : List LineToken) : Reading := ts.foldl (step filename) {}

theorem Reading.run_append (filename : Option Text) (ts us : List LineToken) :
    run filename (ts ++ us) = us.foldl (step filename) (run filename ts) :=
  List.foldl_append

theorem Reading.run_concat (filename : Option Text) (ts : List LineToken) (t : LineToken) :
    run filename (ts ++ [t]) = (run filename ts).step filename t :=
  run_append filename ts [t]

/-! ### A fitting addition can be made -/

theorem Reading.isSome_onTop? {r : Reading} {change : Frame → Option Frame} {head : Head}
    (hp : r.context.parent = some head) (hf : ∀ f : Frame, f.head = head → (change f).isSome) :
    (r.onTop? change).isSome := by
  unfold Reading.context at hp
  unfold Reading.onTop?
  cases hs : r.stack with
  | nil => simp [hs] at hp
  | cons f fs =>
    have hhead : f.head = head := by simpa [hs] using hp
    simpa using hf f hhead

theorem Addition.isSome_addTo? {filename : Option Text} {t : LineToken} {r : Reading} {a : Addition}
    (hc : r.capture = none) (h : a.Fits r.context t) : (a.addTo? filename t r).isSome := by
  cases a with
  | serverState type name value =>
    have ho : r.openServer.isSome = true := h
    simpa [addTo?] using ho
  | capture head => simp [addTo?, hc]
  | server name port =>
    have ho : r.openServer.isSome = false := h
    simp [addTo?, ho]
  | property key value =>
    obtain ⟨-, head, hp, ⟨kind, tag, rfl⟩ | ⟨selector, rfl⟩⟩ := h
    · exact Reading.isSome_onTop? hp fun f hf => by simp [Frame.addProperty?, hf]
    · exact Reading.isSome_onTop? hp fun f hf => by simp [Frame.addProperty?, hf]
  | tag name =>
    obtain ⟨-, kind, tag, hp⟩ := h
    exact Reading.isSome_onTop? hp fun f hf => by simp [Frame.setTag?, hf]
  | loopKey expression =>
    obtain ⟨-, item, index, collection, key, hp⟩ := h
    exact Reading.isSome_onTop? hp fun f hf => by simp [Frame.setKey?, hf]
  | _ => rfl

/-! ### What an addition changes -/

theorem Reading.onTop?_eq_some {r r' : Reading} {change : Frame → Option Frame} (h : r.onTop? change = some r') :
    ∃ f fs f', r.stack = f :: fs ∧ change f = some f' ∧ r' = { r with stack := f' :: fs } := by
  unfold Reading.onTop? at h
  split at h
  · cases h
  · rename_i f fs hs
    obtain ⟨f', hf', rfl⟩ := Option.map_eq_some_iff.mp h
    exact ⟨f, fs, f', hs, hf', rfl⟩

/-- The two frames are one node, to which a line may have given a property, a tag or a key. -/
structure Frame.SameNode (f g : Frame) : Prop where
  indent : g.indent = f.indent
  location : g.location = f.location
  children : g.children = f.children
  bare : g.head.bare = f.head.bare

/-- What an addition can change: it leaves the closed parts of the reading, opens at most one capture, at most one
server and at most one node, and gives something to at most the innermost open node. -/
structure Addition.Effect (filename : Option Text) (t : LineToken) (a : Addition) (r r' : Reading) : Prop where
  frame : r' = { r with
    stack := r'.stack, capture := r'.capture, openServer := r'.openServer, state := r'.state, aliases := r'.aliases }
  capture : r'.capture = r.capture ∨
    ∃ head, r'.capture = some { indent := t.indent, head := head, location := Reading.locate filename t }
  server : r'.openServer.map (·.indent) = r.openServer.map (·.indent) ∨ r'.openServer.map (·.indent) = some t.indent
  stack : r'.stack = r.stack ∨
    (∃ head, a = .node head ∧ r' = r.push filename t head) ∨
    (∃ f f' fs, r.stack = f :: fs ∧ r'.stack = f' :: fs ∧ f.SameNode f')

namespace Addition

variable {filename : Option Text} {t : LineToken} {r r' : Reading} {a : Addition}

theorem effect_onTop? {change : Frame → Option Frame} (hc : ∀ f f', change f = some f' → f.SameNode f')
    (h : r.onTop? change = some r') : Effect filename t a r r' := by
  obtain ⟨f, fs, f', hs, hf', rfl⟩ := Reading.onTop?_eq_some h
  exact ⟨rfl, .inl rfl, .inl rfl, .inr (.inr ⟨f, f', fs, hs, rfl, hc f f' hf'⟩)⟩

theorem addTo?_effect (h : a.addTo? filename t r = some r') : Effect filename t a r r' := by
  cases a with
  | state type name value => cases h; exact ⟨rfl, .inl rfl, .inl rfl, .inl rfl⟩
  | serverState type name value =>
    obtain ⟨o, ho, rfl⟩ := Option.map_eq_some_iff.mp h
    exact ⟨rfl, .inl rfl, .inl (by rw [ho]; rfl), .inl rfl⟩
  | aliasOf source name => cases h; exact ⟨rfl, .inl rfl, .inl rfl, .inl rfl⟩
  | capture head =>
    simp only [addTo?] at h
    split at h <;> cases h
    exact ⟨rfl, .inr ⟨head, rfl⟩, .inl rfl, .inl rfl⟩
  | server name port =>
    simp only [addTo?] at h
    split at h <;> cases h
    exact ⟨rfl, .inl rfl, .inr rfl, .inl rfl⟩
  | node head => cases h; exact ⟨rfl, .inl rfl, .inl rfl, .inr (.inl ⟨head, rfl, rfl⟩)⟩
  | property key value =>
    -- these three replace the top of the stack and leave its place and its children
    refine effect_onTop? (fun f f' hf => ?_) h
    obtain rfl := Frame.addProperty?_eq_some hf
    exact ⟨rfl, rfl, rfl, rfl⟩
  | tag name =>
    refine effect_onTop? (fun f f' hf => ?_) h
    obtain ⟨kind, tag, hh, rfl⟩ := Frame.setTag?_eq_some hf
    exact ⟨rfl, rfl, rfl, by rw [hh]; rfl⟩
  | loopKey expression =>
    refine effect_onTop? (fun f f' hf => ?_) h
    obtain ⟨item, index, collection, key, hh, rfl⟩ := Frame.setKey?_eq_some hf
    exact ⟨rfl, rfl, rfl, by rw [hh]; rfl⟩

end Addition

/-- **The outcomes of a line** that is neither taken nor a comment: the settled and warned reading gets one report of
an error, or one addition that fits. -/
theorem Reading.step_outcome (filename : Option Text) {t : LineToken} {r : Reading} (h : r.takes t = false)
    (hk : t.kind ≠ .comment) :
    (∃ p, Fate.ofLine (r.settle filename t).context t = .dropped p ∧ Drops p ∧
      r.step filename t = ((r.settle filename t).warn filename t).report filename t p) ∨
    (∃ a, Fate.ofLine (r.settle filename t).context t = .added a ∧ a.Fits (r.settle filename t).context t ∧
      a.addTo? filename t ((r.settle filename t).warn filename t) = some (r.step filename t)) := by
  have hsound := Fate.sound (r.settle filename t).context t
  have hstep := step_line filename h hk
  cases hf : Fate.ofLine (r.settle filename t).context t with
  | dropped p =>
    rw [hf] at hsound hstep
    exact .inl ⟨p, rfl, hsound, hstep⟩
  | added a =>
    rw [hf] at hsound hstep
    have hsome : (a.addTo? filename t ((r.settle filename t).warn filename t)).isSome :=
      Addition.isSome_addTo? (r := (r.settle filename t).warn filename t) settle_capture hsound
    obtain ⟨r', hr'⟩ := Option.isSome_iff_exists.mp hsome
    refine .inr ⟨a, rfl, hsound, ?_⟩
    rw [hstep, hr']
    simp [Fate.enact, hr']

end Trellis.Document
