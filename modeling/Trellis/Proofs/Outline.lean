import Trellis.Proofs.Step

/-!
# The outline of a markup tree

The outline lists the nodes of a tree in pre-order, each with the place of its parent.  A reading that is under way
has an outline as well, spread over its closed and its open nodes.  Closing a node leaves the outline as it is, and a
line adds at most one entry to it, at the end (`step_outline`).

This rests on the shape of the open nodes (`Reading.Shaped`): their indents strictly increase inwards and stay below
those of an open server and an open capture, and nothing is ever opened inside a pseudo-class.
-/

namespace Trellis

namespace Document

/-- A node of a tree: where its parent is, unless it is at the top, what its own line says, and where it is. -/
structure OutlineEntry where
  parent : Option Location
  head : Head
  location : Location
  deriving DecidableEq, Repr

end Document

open Document

namespace Node

mutual

/-- The outline of a tree below `parent`. -/
def outline (parent : Option Location) : Node → List OutlineEntry
  | .element kind _ _ cs l => ⟨parent, .element kind none, l⟩ :: outlineAll (some l) cs
  | .pseudo selector _ l => [⟨parent, .pseudo selector, l⟩]
  | .condition branch cs l => ⟨parent, .condition branch, l⟩ :: outlineAll (some l) cs
  | .loop item index collection _ cs l => ⟨parent, .loop item index collection none, l⟩ :: outlineAll (some l) cs

def outlineAll (parent : Option Location) : List Node → List OutlineEntry
  | [] => []
  | n :: ns => outline parent n ++ outlineAll parent ns

end

theorem outlineAll_append (parent : Option Location) (ns ms : List Node) :
    outlineAll parent (ns ++ ms) = outlineAll parent ns ++ outlineAll parent ms := by
  induction ns with
  | nil => rfl
  | cons n ns ih => simp only [List.cons_append, outlineAll, ih, List.append_assoc]

mutual

/-- The outline of a tree goes through its nodes in pre-order. -/
theorem outline_locations (parent : Option Location) (depth : Nat) :
    ∀ n : Node, (outline parent n).map (·.location) = (preorder depth n).map (·.1.location)
  | .element _ _ _ cs l => by
    simp only [outline, preorder, List.map_cons, outlineAll_locations (some l) (depth + 1) cs, location]
  | .pseudo _ _ _ => rfl
  | .condition _ cs l => by
    simp only [outline, preorder, List.map_cons, outlineAll_locations (some l) (depth + 1) cs, location]
  | .loop _ _ _ _ cs l => by
    simp only [outline, preorder, List.map_cons, outlineAll_locations (some l) (depth + 1) cs, location]

theorem outlineAll_locations (parent : Option Location) (depth : Nat) :
    ∀ ns : List Node, (outlineAll parent ns).map (·.location) = (preorderAll depth ns).map (·.1.location)
  | [] => rfl
  | n :: ns => by
    simp only [outlineAll, preorderAll, List.map_append, outline_locations parent depth n,
      outlineAll_locations parent depth ns]

end

end Node

namespace Document

/-! ### Open nodes -/

namespace Frame

/-- The frame is a pseudo-class. -/
def IsPseudo (f : Frame) : Prop := ∃ selector, f.head = .pseudo selector

/-- Where a frame is, and how deep. -/
def place (f : Frame) : Nat × Location := (f.indent, f.location)

theorem isPseudo_of_bare {f g : Frame} (h : g.head.bare = f.head.bare) : g.IsPseudo → f.IsPseudo := by
  rintro ⟨selector, hg⟩
  rw [hg] at h
  refine ⟨selector, ?_⟩
  cases hf : f.head <;> rw [hf] at h <;> cases h
  rfl

theorem outline_close (f : Frame) (parent : Option Location) (h : f.IsPseudo → f.children = []) :
    f.close.outline parent = ⟨parent, f.head.bare, f.location⟩ :: Node.outlineAll (some f.location) f.children := by
  unfold close
  cases hf : f.head with
  | pseudo selector => rw [h ⟨selector, hf⟩]; rfl
  | _ => rfl

end Frame

/-- The outline of the closed nodes and, behind it, of the open ones. -/
def outlineOf : List Frame → List Node → List OutlineEntry
  | [], roots => Node.outlineAll none roots
  | f :: fs, roots =>
    outlineOf fs roots ++
      ⟨fs.head?.map (·.location), f.head.bare, f.location⟩ :: Node.outlineAll (some f.location) f.children

/-- The open nodes, innermost first, are nested: indents increase inwards, and pseudo-classes have nothing inside. -/
structure Nested (stack : List Frame) : Prop where
  increasing : stack.Pairwise fun f g => g.indent < f.indent
  leaves : ∀ f ∈ stack, f.IsPseudo → f.children = []
  inner : ∀ f ∈ stack.tail, ¬ f.IsPseudo

namespace Nested

variable {f f' : Frame} {fs : List Frame}

theorem tail (h : Nested (f :: fs)) : Nested fs where
  increasing := (List.pairwise_cons.mp h.increasing).2
  leaves := fun g hg => h.leaves g (List.mem_cons_of_mem _ hg)
  inner := fun g hg => h.inner g (List.mem_of_mem_tail hg)

/-- The innermost frame may be changed, as long as it stays where it is. -/
theorem replace (h : Nested (f :: fs)) (hi : f'.indent = f.indent) (hl : f'.IsPseudo → f'.children = []) :
    Nested (f' :: fs) where
  increasing := by
    obtain ⟨hhead, htail⟩ := List.pairwise_cons.mp h.increasing
    exact List.pairwise_cons.mpr ⟨fun g hg => hi ▸ hhead g hg, htail⟩
  leaves := List.forall_mem_cons.mpr ⟨hl, h.tail.leaves⟩
  inner := h.inner

end Nested

variable {stack : List Frame}

/-- Closing frames takes away those that are not above `indent`, and keeps the outline. -/
theorem closeFrames_spec (indent : Nat) (roots : List Node) (h : Nested stack) :
    Nested (Reading.closeFrames indent stack roots).1 ∧
    (Reading.closeFrames indent stack roots).1.map Frame.place = (stack.map Frame.place).filter (·.1 < indent) ∧
    outlineOf (Reading.closeFrames indent stack roots).1 (Reading.closeFrames indent stack roots).2 =
      outlineOf stack roots := by
  induction stack, roots using Reading.closeFrames.induct indent with
  | case1 roots =>
    have hclose : Reading.closeFrames indent [] roots = ([], roots) := by rw [Reading.closeFrames.eq_def]
    rw [hclose]
    exact ⟨h, rfl, rfl⟩
  | case2 f fs roots hlt =>
    -- the innermost frame is above the line, and so are those around it
    have hall : ∀ p ∈ (f :: fs).map Frame.place, p.1 < indent := by
      refine List.forall_mem_map.mpr (List.forall_mem_cons.mpr ⟨hlt, fun g hg => ?_⟩)
      exact Nat.lt_trans ((List.pairwise_cons.mp h.increasing).1 g hg) hlt
    have hclose : Reading.closeFrames indent (f :: fs) roots = (f :: fs, roots) := by
      rw [Reading.closeFrames.eq_def]
      exact if_pos hlt
    rw [hclose, List.filter_eq_self.mpr fun p hp => by simpa using hall p hp]
    exact ⟨h, rfl, rfl⟩
  | case3 f roots hlt =>
    -- the last frame becomes a root
    rw [Reading.closeFrames, if_neg hlt]
    refine ⟨h.tail, by simp [Frame.place, hlt], ?_⟩
    simp only [outlineOf, Node.outlineAll_append, Node.outlineAll, List.append_nil, List.head?_nil, Option.map_none]
    rw [f.outline_close none (h.leaves f List.mem_cons_self)]
  | case4 f roots hlt g gs ih =>
    -- the frame becomes the last child of the one around it
    have hg : ¬ g.IsPseudo := h.inner g List.mem_cons_self
    have hnested : Nested ({ g with children := g.children ++ [f.close] } :: gs) :=
      h.tail.replace rfl fun hp => absurd hp hg
    obtain ⟨hn, hp, ho⟩ := ih hnested
    rw [Reading.closeFrames, if_neg hlt]
    refine ⟨hn, ?_, ?_⟩
    · have hf : ((f :: g :: gs).map Frame.place).filter (·.1 < indent) =
          ((g :: gs).map Frame.place).filter (·.1 < indent) := by
        simp [Frame.place, hlt, List.filter_cons]
      exact hp.trans hf.symm
    · rw [ho]
      simp only [outlineOf, Node.outlineAll_append, Node.outlineAll, List.append_nil, List.head?_cons, Option.map_some,
        List.append_assoc, List.cons_append]
      rw [f.outline_close _ (h.leaves f List.mem_cons_self)]

/-! ### Readings -/

namespace Reading

/-- The outline of what has been read. -/
def outline (r : Reading) : List OutlineEntry := outlineOf r.stack r.roots

/-- The places of the open nodes, innermost first. -/
def places (r : Reading) : List (Nat × Location) := r.stack.map Frame.place

/-- The open nodes are nested, and deeper than all of them are the open server and the open capture. -/
structure Shaped (r : Reading) : Prop where
  nested : Nested r.stack
  capture : ∀ c ∈ r.capture, ∀ p ∈ r.places, p.1 < c.indent
  server : ∀ n ∈ r.openServer.map (·.indent), ∀ p ∈ r.places, p.1 < n

variable {filename : Option Text} {t : LineToken} {r : Reading}

theorem shaped_nil : ({} : Reading).Shaped :=
  ⟨⟨.nil, by simp, by simp⟩, by simp, by simp⟩

theorem declare_markup (c : Capture) (r : Reading) :
    (r.declare filename c).stack = r.stack ∧ (r.declare filename c).roots = r.roots ∧
      (r.declare filename c).openServer.map (·.indent) = r.openServer.map (·.indent) := by
  unfold declare
  cases c.head with
  | route verb name path smart =>
    refine ⟨rfl, rfl, ?_⟩
    cases r.openServer <;> rfl
  | _ => exact ⟨rfl, rfl, rfl⟩

/-- Closing the capture leaves the markup and the indent of the open server. -/
theorem closeCapture_markup (filename : Option Text) (r : Reading) :
    (r.closeCapture filename).stack = r.stack ∧ (r.closeCapture filename).roots = r.roots ∧
      (r.closeCapture filename).openServer.map (·.indent) = r.openServer.map (·.indent) := by
  unfold closeCapture
  cases r.capture with
  | none => exact ⟨rfl, rfl, rfl⟩
  | some c => exact declare_markup c _

theorem closeServer_markup (r : Reading) : r.closeServer.stack = r.stack ∧ r.closeServer.roots = r.roots := by
  unfold closeServer
  cases r.openServer <;> exact ⟨rfl, rfl⟩

theorem closeCapture_spec (filename : Option Text) (h : r.Shaped) :
    (r.closeCapture filename).Shaped ∧ (r.closeCapture filename).places = r.places ∧
      (r.closeCapture filename).outline = r.outline := by
  obtain ⟨hs, hr, ho⟩ := closeCapture_markup filename r
  have hp : (r.closeCapture filename).places = r.places := by unfold places; rw [hs]
  refine ⟨⟨hs ▸ h.nested, fun c hc => ?_, by rw [hp, ho]; exact h.server⟩, hp, by unfold outline; rw [hs, hr]⟩
  rw [closeCapture_capture] at hc
  cases hc

/-- The places of the open nodes that a line leaves open. -/
def kept (t : LineToken) (r : Reading) : List (Nat × Location) :=
  r.places.filter fun p => t.kind = .comment || p.1 < t.indent

theorem kept_of_all (h : ∀ p ∈ r.places, p.1 < t.indent) : r.kept t = r.places :=
  List.filter_eq_self.mpr fun p hp => by simp [h p hp]

theorem kept_of_comment (hk : t.kind = .comment) : r.kept t = r.places :=
  List.filter_eq_self.mpr fun p _ => by simp [hk]

theorem kept_of_line (hk : t.kind ≠ .comment) : r.kept t = r.places.filter (·.1 < t.indent) := by
  unfold kept
  simp [hk]

theorem kept_of_takes (h : r.Shaped) (ht : r.takes t = true) : r.kept t = r.places := by
  unfold takes at ht
  split at ht
  · rename_i c hc
    have hlt : c.indent < t.indent := by simpa using ht
    exact kept_of_all fun p hp => Nat.lt_trans (h.capture c hc p hp) hlt
  · cases ht

/-- Settling leaves the open nodes that are above the line, and keeps the outline. -/
theorem settle_spec (filename : Option Text) (h : r.Shaped) (hk : t.kind ≠ .comment) :
    (r.settle filename t).Shaped ∧ (r.settle filename t).places = r.kept t ∧
      (r.settle filename t).outline = r.outline := by
  obtain ⟨hclosed, hplaces, hout⟩ := closeCapture_spec filename h
  have hkept : (r.closeCapture filename).kept t = r.kept t := by unfold kept; rw [hplaces]
  have hcap : (r.closeCapture filename).capture = none := closeCapture_capture
  rw [← hkept, ← hout]
  simp only [settle]
  generalize r.closeCapture filename = s at hclosed hcap ⊢
  by_cases hh : s.holds t = true
  · rw [if_pos hh]
    -- a line inside a server closes no node: all of them are above the server
    refine ⟨hclosed, (kept_of_all fun p hp => ?_).symm, rfl⟩
    obtain ⟨o, ho, hlt⟩ := exists_of_holds hh
    exact Nat.lt_trans (hclosed.server o.indent (by simp [ho]) p hp) hlt
  · rw [if_neg hh]
    -- any other line closes the server and the nodes that are not above it
    obtain ⟨hs, hr⟩ := closeServer_markup s
    obtain ⟨hn, hp, ho⟩ := closeFrames_spec t.indent s.roots hclosed.nested
    rw [← hs, ← hr] at hn hp ho
    have hcap' : (s.closeServer.popTo t.indent).capture = none := closeServer_capture.trans hcap
    have hopen : (s.closeServer.popTo t.indent).openServer = none := closeServer_openServer
    refine ⟨⟨hn, by rw [hcap']; simp, by rw [hopen]; simp⟩, ?_, ?_⟩
    · rw [kept_of_line hk]
      unfold places
      rw [← hs]
      exact hp
    · unfold outline
      rw [← hs, ← hr]
      exact ho

/-- Where a head may be opened there is no pseudo-class. -/
theorem not_isPseudo_of_mayOpen {head : Head} {f : Frame} {fs : List Frame} (hs : r.stack = f :: fs)
    (hn : Nested r.stack) (h : head.MayOpen r.context) : ¬ f.IsPseudo := by
  rintro ⟨selector, hf⟩
  have hparent : r.context.parent = some (.pseudo selector) := by simp [context, hs, hf]
  have hother : ¬ ∀ selector, r.context.parent ≠ some (.pseudo selector) := fun h => h selector hparent
  cases head with
  | pseudo selector' =>
    obtain ⟨kind, tag, he⟩ := h
    rw [hparent] at he
    cases he
  | condition branch =>
    cases branch with
    | when test => exact hother h
    | otherwise =>
      -- an `else` needs a sibling before it, and a pseudo-class has nothing inside
      have hleaf : f.children = [] := hn.leaves f (hs ▸ List.mem_cons_self) ⟨selector, hf⟩
      have hafter : r.context.afterIf = true := h
      simp [context, lastSibling?, hs, hleaf] at hafter
  | element kind tag => exact hother h
  | loop item index collection key => exact hother h

/-- A new innermost node, where one may be opened, keeps the open nodes nested. -/
theorem nested_push {head : Head} (hn : Nested r.stack) (hall : ∀ p ∈ r.places, p.1 < t.indent)
    (hm : head.MayOpen r.context) : Nested (r.push filename t head).stack where
  increasing := List.pairwise_cons.mpr ⟨fun f hf => hall f.place (List.mem_map_of_mem hf), hn.increasing⟩
  leaves := List.forall_mem_cons.mpr ⟨fun _ => rfl, hn.leaves⟩
  inner := by
    show ∀ f ∈ r.stack, ¬ f.IsPseudo
    cases hs : r.stack with
    | nil => simp
    | cons f fs =>
      refine List.forall_mem_cons.mpr ⟨not_isPseudo_of_mayOpen hs hn hm, fun g hg => hn.inner g ?_⟩
      rw [hs]
      exact hg

/-- The line adds the entry of a node with this head. -/
structure Grows (filename : Option Text) (t : LineToken) (head : Head) (r r' : Reading) : Prop where
  opens : head.Opens t
  outline : r'.outline = r.outline ++ [⟨(r.kept t).head?.map (·.2), head.bare, locate filename t⟩]
  places : r'.places = (t.indent, locate filename t) :: r.kept t

/-- An addition that leaves the open places keeps the shape: a capture or a server that it opens is as deep as the
line. -/
theorem shaped_of_places {a : Addition} {r' : Reading} (h : r.Shaped) (hc : r.capture = none)
    (hall : ∀ p ∈ r.places, p.1 < t.indent) (he : a.Effect filename t r r') (hn : Nested r'.stack)
    (hp : r'.places = r.places) : r'.Shaped := by
  refine ⟨hn, fun c hc' => ?_, fun n hn' => ?_⟩
  · rw [hp]
    obtain heq | ⟨head, heq⟩ := he.capture
    · rw [heq, hc] at hc'
      cases hc'
    · rw [heq] at hc'
      cases hc'
      exact hall
  · rw [hp]
    obtain heq | heq := he.server
    · rw [heq] at hn'
      exact h.server n hn'
    · rw [heq] at hn'
      cases hn'
      exact hall

/-- A new innermost node keeps the shape, when nothing else is open. -/
theorem shaped_push {head : Head} (h : r.Shaped) (hc : r.capture = none) (ho : r.openServer = none)
    (hall : ∀ p ∈ r.places, p.1 < t.indent) (hm : head.MayOpen r.context) : (r.push filename t head).Shaped := by
  refine ⟨nested_push h.nested hall hm, fun c hc' => ?_, fun n hn => ?_⟩
  · rw [show (r.push filename t head).capture = none from hc] at hc'
    cases hc'
  · rw [show (r.push filename t head).openServer = none from ho] at hn
    cases hn

/-- An addition to a settled reading adds one entry to the outline, or leaves the outline and the open places. -/
theorem addTo?_spec {a : Addition} {r' : Reading} (h : r.Shaped) (hc : r.capture = none)
    (hall : ∀ p ∈ r.places, p.1 < t.indent) (hfit : a.Fits r.context t) (ha : a.addTo? filename t r = some r') :
    r'.Shaped ∧ ((r'.outline = r.outline ∧ r'.places = r.places) ∨ ∃ head, Grows filename t head r r') := by
  have he := Addition.addTo?_effect ha
  have hroots : r'.roots = r.roots := by rw [he.frame]
  obtain hs | ⟨head, rfl, rfl⟩ | ⟨f, f', fs, hs, hs', hnode⟩ := he.stack
  · -- the stack stays
    have hp : r'.places = r.places := by unfold places; rw [hs]
    exact ⟨shaped_of_places h hc hall he (hs ▸ h.nested) hp, .inl ⟨by unfold outline; rw [hs, hroots], hp⟩⟩
  · -- a node is opened
    obtain ⟨hserver, hopens, hmay⟩ := hfit
    have hserver : r.openServer = none := by simpa [context] using hserver
    refine ⟨shaped_push h hc hserver hall hmay, .inr ⟨head, hopens, ?_, ?_⟩⟩
    · rw [kept_of_all hall]
      unfold places outline
      rw [List.head?_map, Option.map_map]
      rfl
    · rw [kept_of_all hall]
      rfl
  · -- the top of the stack is changed, but neither its place nor its children
    have hp : r'.places = r.places := by
      unfold places
      rw [hs, hs', List.map_cons, List.map_cons, Frame.place, hnode.indent, hnode.location]
      rfl
    have hnested : Nested r'.stack := by
      rw [hs']
      refine (hs ▸ h.nested).replace hnode.indent fun hpseudo => ?_
      rw [hnode.children]
      exact h.nested.leaves f (hs ▸ List.mem_cons_self) (Frame.isPseudo_of_bare hnode.bare hpseudo)
    refine ⟨shaped_of_places h hc hall he hnested hp, .inl ⟨?_, hp⟩⟩
    unfold outline
    rw [hs, hs', hroots]
    simp only [outlineOf, hnode.bare, hnode.location, hnode.children]

/-- **One line of the outline.**  A step keeps the shape.  It adds one entry to the outline, or none; the open nodes
are those that the line leaves open and the new one. -/
theorem step_outline (filename : Option Text) (t : LineToken) (h : r.Shaped) :
    (r.step filename t).Shaped ∧
      (((r.step filename t).outline = r.outline ∧ (r.step filename t).places = r.kept t) ∨
        ∃ head, Grows filename t head r (r.step filename t)) := by
  cases ht : r.takes t with
  | true =>
    -- the line goes to the open capture
    rw [step_takes filename ht, kept_of_takes h ht]
    refine ⟨⟨h.nested, fun c hc => ?_, h.server⟩, .inl ⟨rfl, rfl⟩⟩
    obtain ⟨c', hc', rfl⟩ := Option.map_eq_some_iff.mp hc
    exact h.capture c' hc'
  | false =>
    by_cases hk : t.kind = .comment
    · rw [step_comment filename ht hk, kept_of_comment hk]
      obtain ⟨hclosed, hplaces, hout⟩ := closeCapture_spec filename h
      exact ⟨hclosed, .inl ⟨hout, hplaces⟩⟩
    · obtain ⟨hshape, hplaces, hout⟩ := settle_spec filename h hk
      have hall : ∀ p ∈ (r.settle filename t).places, p.1 < t.indent := by
        rw [hplaces, kept_of_line hk]
        intro p hp
        simpa using (List.mem_filter.mp hp).2
      obtain ⟨p, -, -, hstep⟩ | ⟨a, -, hfit, hstep⟩ := step_outcome filename ht hk
      · -- the line is reported, and adds nothing
        rw [hstep]
        exact ⟨⟨hshape.nested, hshape.capture, hshape.server⟩, .inl ⟨hout, hplaces⟩⟩
      · have hshape' : ((r.settle filename t).warn filename t).Shaped :=
          ⟨hshape.nested, hshape.capture, hshape.server⟩
        obtain ⟨hnew, ⟨hout', hplaces'⟩ | ⟨head, hgrow⟩⟩ := addTo?_spec hshape' settle_capture hall hfit hstep
        · exact ⟨hnew, .inl ⟨hout'.trans hout, hplaces'.trans hplaces⟩⟩
        · have hkept : ((r.settle filename t).warn filename t).kept t = r.kept t := (kept_of_all hall).trans hplaces
          refine ⟨hnew, .inr ⟨head, hgrow.opens, ?_, ?_⟩⟩
          · rw [hgrow.outline, hkept]
            exact congrArg (· ++ _) hout
          · rw [hgrow.places, hkept]

end Reading

end Document

end Trellis
