import Trellis.Proofs.Correspondence
import Trellis.Proofs.Step

/-!
# Two readings side by side

Two sources whose lines correspond are read alike: line by line the two readings have the same nodes, captures and
servers open, at indents in the same order, and through the two views they have closed the same parts and reported the
same problems (`Alike`).  A line meets the same fate in both, as the fate depends on its kind, its text and its context
only, so it is enough to follow the parts that know about places.
-/

namespace Trellis

namespace Correspondence

variable {filename : Option Text} {V W : View} (K : Correspondence filename V W)

/-- Two tokens that a reader cannot tell apart. -/
structure Token (t u : LineToken) : Prop where
  line : K.Line t.toBodyLine u.toBodyLine
  kind : t.kind = u.kind
  text : t.text = u.text

/-- Indents of corresponding lines. -/
def Indent (a b : Nat) : Prop := ∃ l m, K.Line l m ∧ l.indent = a ∧ m.indent = b

variable {K} {t u : LineToken}

theorem Indent.lt_iff {a b c d : Nat} (h : K.Indent a b) (h' : K.Indent c d) : a < c ↔ b < d := by
  obtain ⟨l, m, hl, ha, hb⟩ := h
  obtain ⟨l', m', hl', hc, hd⟩ := h'
  have := K.order hl hl'
  omega

theorem Token.indent (h : K.Token t u) : K.Indent t.indent u.indent := ⟨_, _, h.line, rfl, rfl⟩

theorem Token.place (h : K.Token t u) :
    V.place (Document.Reading.locate filename t) = W.place (Document.Reading.locate filename u) :=
  K.place h.line

theorem Token.report (h : K.Token t u) (p : Problem) :
    V.report (p.diagnose filename t.line t.raw) = W.report (p.diagnose filename u.line u.raw) :=
  K.report h.line p

end Correspondence

namespace Document

variable {filename : Option Text} {V W : View} (K : Correspondence filename V W)

/-- Two frames that are alike. -/
structure Frame.Alike (f g : Frame) : Prop where
  indent : K.Indent f.indent g.indent
  head : f.head = g.head
  location : V.place f.location = W.place g.location
  properties : f.properties.map V.property = g.properties.map W.property
  children : V.nodes f.children = W.nodes g.children

structure Capture.Alike (c d : Capture) : Prop where
  indent : K.Indent c.indent d.indent
  head : c.head = d.head
  location : V.place c.location = W.place d.location
  lines : List.Forall₂ K.Line c.lines d.lines

structure OpenServer.Alike (o p : OpenServer) : Prop where
  indent : K.Indent o.indent p.indent
  server : V.server o.server = W.server p.server

/-- Two readings that are alike. -/
structure Alike (r s : Reading) : Prop where
  stack : List.Forall₂ (Frame.Alike K) r.stack s.stack
  roots : V.nodes r.roots = W.nodes s.roots
  capture : Option.Rel (Capture.Alike K) r.capture s.capture
  openServer : Option.Rel (OpenServer.Alike K) r.openServer s.openServer
  server : r.server.map V.server = s.server.map W.server
  state : r.state.map V.stateDecl = s.state.map W.stateDecl
  functions : r.functions.map V.functionDecl = s.functions.map W.functionDecl
  services : r.services.map V.serviceDecl = s.services.map W.serviceDecl
  aliases : r.aliases.map V.aliasDecl = s.aliases.map W.aliasDecl
  mount : r.mount.map V.mountHook = s.mount.map W.mountHook
  diagnostics : r.diagnostics.map V.report = s.diagnostics.map W.report

variable {K} {t u : LineToken} {r s : Reading}

/-! ### What the fate of a line depends on -/

theorem isSome_of_rel {α β : Type} {R : α → β → Prop} {x : Option α} {y : Option β} (h : Option.Rel R x y) :
    x.isSome = y.isSome := by
  cases h <;> rfl

theorem rel_cases {α β : Type} {R : α → β → Prop} {x : Option α} {y : Option β} (h : Option.Rel R x y) :
    (x = none ∧ y = none) ∨ ∃ a b, x = some a ∧ y = some b ∧ R a b := by
  cases h with
  | none => exact .inl ⟨rfl, rfl⟩
  | some h => exact .inr ⟨_, _, rfl, rfl, h⟩

theorem isSome_of_map_eq {α β γ : Type} {f : α → γ} {g : β → γ} {x : Option α} {y : Option β}
    (h : x.map f = y.map g) : x.isSome = y.isSome := by
  rw [← Option.isSome_map (f := f), h, Option.isSome_map]

theorem isIf_node (V : View) (n : Node) : isIf (V.node n) = isIf n := by
  cases n with
  | condition branch cs l => cases branch <;> rfl
  | _ => rfl

theorem getLast?_nodes (V : View) (ns : List Node) : (V.nodes ns).getLast? = ns.getLast?.map V.node := by
  rw [View.nodes_eq_map, List.getLast?_map]

theorem Alike.lastSibling? (h : Alike K r s) : r.lastSibling?.map V.node = s.lastSibling?.map W.node := by
  have hstack := h.stack
  unfold Reading.lastSibling?
  cases hr : r.stack with
  | nil =>
    rw [hr] at hstack
    rw [List.forall₂_nil_left_iff.mp hstack, ← getLast?_nodes, ← getLast?_nodes, h.roots]
  | cons f fs =>
    rw [hr] at hstack
    obtain ⟨g, gs, hfg, -, hs⟩ := List.forall₂_cons_left_iff.mp hstack
    rw [hs, ← getLast?_nodes, ← getLast?_nodes, hfg.children]

theorem Alike.context (h : Alike K r s) : r.context = s.context := by
  have hin : r.context.inServer = s.context.inServer := isSome_of_rel h.openServer
  have hparent : r.context.parent = s.context.parent := by
    have hstack := h.stack
    unfold Reading.context
    cases hr : r.stack with
    | nil =>
      rw [hr] at hstack
      rw [List.forall₂_nil_left_iff.mp hstack]
    | cons f fs =>
      rw [hr] at hstack
      obtain ⟨g, gs, hfg, -, hs⟩ := List.forall₂_cons_left_iff.mp hstack
      rw [hs]
      exact congrArg some hfg.head
  -- whether an `if` comes last is seen through any view
  have hif : r.context.afterIf = s.context.afterIf := by
    have hview : ∀ (V : View) (n : Option Node), (n.map V.node).map isIf = n.map isIf := by
      intro V n
      rw [Option.map_map]
      exact congrArg (fun f => n.map f) (funext (isIf_node V))
    rw [context_afterIf, context_afterIf, ← hview V r.lastSibling?, h.lastSibling?, hview W]
  calc r.context = ⟨r.context.inServer, r.context.parent, r.context.afterIf⟩ := rfl
    _ = ⟨s.context.inServer, s.context.parent, s.context.afterIf⟩ := by rw [hin, hparent, hif]

theorem fate_eq (h : K.Token t u) (c : Context) : Fate.ofLine c t = Fate.ofLine c u := by
  have hcontent : t.content = u.content := by
    unfold LineToken.content
    rw [h.kind, h.text]
  unfold Fate.ofLine Fate.inServer Fate.outside Fate.ofUnknown
  rw [h.kind, h.text, hcontent]

theorem Alike.takes (h : Alike K r s) (ht : K.Token t u) : r.takes t = s.takes u := by
  unfold Reading.takes
  obtain ⟨hr, hs⟩ | ⟨c, d, hr, hs, hc⟩ := rel_cases h.capture
  · rw [hr, hs]
  · rw [hr, hs]
    exact decide_eq_decide.mpr (hc.indent.lt_iff ht.indent)

theorem Alike.holds (h : Alike K r s) (ht : K.Token t u) : r.holds t = s.holds u := by
  unfold Reading.holds
  obtain ⟨hr, hs⟩ | ⟨o, p, hr, hs, ho⟩ := rel_cases h.openServer
  · rw [hr, hs]
  · rw [hr, hs]
    exact decide_eq_decide.mpr (ho.indent.lt_iff ht.indent)

theorem Alike.warnings (h : Alike K r s) (ht : K.Token t u) : r.warnings t = s.warnings u := by
  unfold Reading.warnings
  rw [isSome_of_rel h.openServer, isSome_of_map_eq h.server, isSome_of_map_eq h.mount, ht.kind, ht.text]

/-! ### Ending what is open -/

theorem Frame.Alike.close {f g : Frame} (h : Frame.Alike K f g) : V.node f.close = W.node g.close := by
  unfold Frame.close
  rw [← h.head]
  cases f.head <;> simp only [View.node, h.properties, h.children, h.location]

theorem nodes_append (V : View) (ns ms : List Node) : V.nodes (ns ++ ms) = V.nodes ns ++ V.nodes ms := by
  rw [View.nodes_eq_map, View.nodes_eq_map, View.nodes_eq_map, List.map_append]

/-- Closing frames down to indents that stand in the same order to those of the frames. -/
theorem closeFrames_alike {a b : Nat} (hab : ∀ {x y}, K.Indent x y → (x < a ↔ y < b)) {fs gs : List Frame} {ns ms : List Node}
    (h : List.Forall₂ (Frame.Alike K) fs gs) (hn : V.nodes ns = W.nodes ms) :
    List.Forall₂ (Frame.Alike K) (Reading.closeFrames a fs ns).1 (Reading.closeFrames b gs ms).1 ∧
      V.nodes (Reading.closeFrames a fs ns).2 = W.nodes (Reading.closeFrames b gs ms).2 := by
  induction fs, ns using Reading.closeFrames.induct a generalizing gs ms with
  | case1 ns =>
    cases h
    rw [Reading.closeFrames.eq_def, Reading.closeFrames.eq_def]
    exact ⟨.nil, hn⟩
  | case2 f fs ns hlt =>
    -- both innermost frames stay open
    obtain ⟨g, gs, hfg, hfs, rfl⟩ := List.forall₂_cons_left_iff.mp h
    have hlt' : g.indent < b := (hab hfg.indent).mp hlt
    rw [Reading.closeFrames.eq_def, Reading.closeFrames.eq_def]
    simp only [if_pos hlt, if_pos hlt']
    exact ⟨h, hn⟩
  | case3 f ns hlt =>
    -- both last frames become roots
    obtain ⟨g, gs, hfg, hfs, rfl⟩ := List.forall₂_cons_left_iff.mp h
    obtain rfl := List.forall₂_nil_left_iff.mp hfs
    have hlt' : ¬ g.indent < b := mt (hab hfg.indent).mpr hlt
    rw [Reading.closeFrames, if_neg hlt, Reading.closeFrames, if_neg hlt', nodes_append, nodes_append]
    exact ⟨.nil, by simp only [hn, View.nodes, hfg.close]⟩
  | case4 f ns hlt f' fs ih =>
    -- both become children of the frames around them
    obtain ⟨g, gs, hfg, hfs, rfl⟩ := List.forall₂_cons_left_iff.mp h
    obtain ⟨g', gs, hfg', hfs', rfl⟩ := List.forall₂_cons_left_iff.mp hfs
    have hlt' : ¬ g.indent < b := mt (hab hfg.indent).mpr hlt
    rw [Reading.closeFrames, if_neg hlt, Reading.closeFrames, if_neg hlt']
    refine ih (.cons ⟨hfg'.indent, hfg'.head, hfg'.location, hfg'.properties, ?_⟩ hfs') hn
    rw [nodes_append, nodes_append]
    simp only [hfg'.children, View.nodes, hfg.close]

theorem Alike.popTo (h : Alike K r s) {a b : Nat} (hab : ∀ {x y}, K.Indent x y → (x < a ↔ y < b)) :
    Alike K (r.popTo a) (s.popTo b) := by
  obtain ⟨hstack, hroots⟩ := closeFrames_alike hab h.stack h.roots
  exact { h with stack := hstack, roots := hroots }

theorem Alike.closeServer (h : Alike K r s) : Alike K r.closeServer s.closeServer := by
  unfold Reading.closeServer
  obtain ⟨hr, hs⟩ | ⟨o, p, hr, hs, ho⟩ := rel_cases h.openServer
  · rw [hr, hs]
    exact h
  · rw [hr, hs]
    refine { h with openServer := .none, server := ?_ }
    have hserver := h.server
    cases hrs : r.server with
    | none =>
      rw [hrs] at hserver
      rw [Option.map_eq_none_iff.mp hserver.symm]
      exact congrArg some ho.server
    | some v =>
      rw [hrs] at hserver
      obtain ⟨w, hw, hvw⟩ := Option.map_eq_some_iff.mp hserver.symm
      rw [hw]
      exact congrArg some hvw.symm

theorem map_concat {α β γ : Type} {f : α → γ} {g : β → γ} {xs : List α} {ys : List β} {x : α} {y : β}
    (h : xs.map f = ys.map g) (hxy : f x = g y) : (xs ++ [x]).map f = (ys ++ [y]).map g := by
  simp only [List.map_append, h, List.map_cons, hxy, List.map_nil]

theorem server_eq_iff (V W : View) (a b : Server) :
    V.server a = W.server b ↔ a.name = b.name ∧ a.port = b.port ∧ a.state.map V.stateDecl = b.state.map W.stateDecl ∧
      a.routes.map V.route = b.routes.map W.route ∧ V.place a.location = W.place b.location := by
  simp only [View.server, Server.mk.injEq]

theorem Alike.declare (h : Alike K r s) {c d : Capture} (hc : Capture.Alike K c d) :
    Alike K (r.declare filename c) (s.declare filename d) := by
  have hbody := K.readBody hc.lines
  have hlines := K.map_line hc.lines
  unfold Reading.declare
  rw [← hc.head]
  cases c.head with
  | function name parameters =>
    refine { h with functions := map_concat h.functions ?_ }
    simp only [View.functionDecl, hlines, hbody, hc.location]
  | mount =>
    refine { h with mount := congrArg some ?_ }
    simp only [View.mountHook, hlines, hbody, hc.location]
  | service name baseUrl =>
    -- the methods are read from the lines, and what is wrong with them is reported
    obtain ⟨hmethods, hreports⟩ := K.readMethods hc.lines
    refine { h with services := map_concat h.services ?_, diagnostics := ?_ }
    · simp only [View.serviceDecl, hlines, hmethods, hc.location]
    · simp only [List.map_append, h.diagnostics, hreports]
  | route verb name path smart =>
    -- a route goes to the open server, if there is one
    obtain ⟨hstatements, hreports⟩ := K.readRouteBody hc.lines
    refine { h with openServer := ?_, diagnostics := ?_ }
    · simp only
      obtain ⟨hr, hs⟩ | ⟨o, p, hr, hs, ho⟩ := rel_cases h.openServer
      · rw [hr, hs]
        exact .none
      · rw [hr, hs]
        obtain ⟨hname, hport, hstate, hroutes, hplace⟩ := (server_eq_iff V W _ _).mp ho.server
        refine .some ⟨ho.indent, (server_eq_iff V W _ _).mpr ⟨hname, hport, hstate, map_concat hroutes ?_, hplace⟩⟩
        simp only [View.route, hlines, hstatements, hc.location]
    · simp only [List.map_append, h.diagnostics, K.blockReports hreports]

theorem Alike.closeCapture (h : Alike K r s) : Alike K (r.closeCapture filename) (s.closeCapture filename) := by
  unfold Reading.closeCapture
  obtain ⟨hr, hs⟩ | ⟨c, d, hr, hs, hc⟩ := rel_cases h.capture
  · rw [hr, hs]
    exact h
  · rw [hr, hs]
    have hclosed : Alike K { r with capture := none } { s with capture := none } := { h with capture := .none }
    exact hclosed.declare hc

theorem Alike.settle (h : Alike K r s) (ht : K.Token t u) :
    Alike K (r.settle filename t) (s.settle filename u) := by
  have hclosed := h.closeCapture
  simp only [Reading.settle]
  rw [← hclosed.holds ht]
  split
  · exact hclosed
  · exact hclosed.closeServer.popTo fun h => h.lt_iff ht.indent

/-! ### One line -/

theorem Alike.report (h : Alike K r s) (ht : K.Token t u) (p : Problem) :
    Alike K (r.report filename t p) (s.report filename u p) :=
  { h with diagnostics := map_concat h.diagnostics (ht.report p) }

theorem Alike.warn (h : Alike K r s) (ht : K.Token t u) : Alike K (r.warn filename t) (s.warn filename u) := by
  refine { h with diagnostics := ?_ }
  have hreports : V.report ∘ (fun p : Problem => p.diagnose filename t.line t.raw) =
      W.report ∘ fun p : Problem => p.diagnose filename u.line u.raw := funext fun p => ht.report p
  simp only [Reading.warn, List.map_append, List.map_map, h.diagnostics, h.warnings ht, hreports]

theorem Alike.take (h : Alike K r s) (ht : K.Token t u) : Alike K (r.take t) (s.take u) := by
  refine { h with capture := ?_ }
  simp only [Reading.take]
  obtain ⟨hr, hs⟩ | ⟨c, d, hr, hs, hc⟩ := rel_cases h.capture
  · rw [hr, hs]
    exact .none
  · rw [hr, hs]
    exact .some { hc with lines := List.rel_append hc.lines (.cons ht.line .nil) }

/-- The innermost nodes, changed in the same way. -/
theorem Alike.onTop? (h : Alike K r s) {change change' : Frame → Option Frame}
    (hc : ∀ f g f' g', Frame.Alike K f g → change f = some f' → change' g = some g' → Frame.Alike K f' g')
    {r' s' : Reading} (hr : r.onTop? change = some r') (hs : s.onTop? change' = some s') : Alike K r' s' := by
  obtain ⟨f, fs, f', hrs, hf, rfl⟩ := Reading.onTop?_eq_some hr
  obtain ⟨g, gs, g', hss, hg, rfl⟩ := Reading.onTop?_eq_some hs
  have hstack := h.stack
  rw [hrs, hss] at hstack
  obtain ⟨hfg, hfs⟩ := List.forall₂_cons.mp hstack
  exact { h with stack := .cons (hc f g f' g' hfg hf hg) hfs }

/-- An addition, made by corresponding lines. -/
theorem Alike.addTo? (h : Alike K r s) (ht : K.Token t u) {a : Addition} {r' s' : Reading}
    (hr : a.addTo? filename t r = some r') (hs : a.addTo? filename u s = some s') : Alike K r' s' := by
  cases a with
  | state type name value =>
    cases hr
    cases hs
    exact { h with state := map_concat h.state (by simp only [View.stateDecl, ht.place]) }
  | serverState type name value =>
    -- both servers are open
    obtain ⟨o, hro, rfl⟩ := Option.map_eq_some_iff.mp hr
    obtain ⟨p, hsp, rfl⟩ := Option.map_eq_some_iff.mp hs
    have hserver := h.openServer
    rw [hro, hsp] at hserver
    cases hserver with
    | some ho =>
      obtain ⟨hname, hport, hstate, hroutes, hplace⟩ := (server_eq_iff V W _ _).mp ho.server
      refine { h with openServer := .some ⟨ho.indent, (server_eq_iff V W _ _).mpr ?_⟩ }
      exact ⟨hname, hport, map_concat hstate (by simp only [View.stateDecl, ht.place]), hroutes, hplace⟩
  | aliasOf source name =>
    cases hr
    cases hs
    exact { h with aliases := map_concat h.aliases (by simp only [View.aliasDecl, ht.place]) }
  | capture head =>
    simp only [Addition.addTo?] at hr hs
    split at hr <;> cases hr
    split at hs <;> cases hs
    exact { h with capture := .some ⟨ht.indent, rfl, ht.place, .nil⟩ }
  | server name port =>
    simp only [Addition.addTo?] at hr hs
    split at hr <;> cases hr
    split at hs <;> cases hs
    refine { h with openServer := .some ⟨ht.indent, (server_eq_iff V W _ _).mpr ⟨rfl, rfl, rfl, rfl, ht.place⟩⟩ }
  | node head =>
    cases hr
    cases hs
    exact { h with stack := .cons ⟨ht.indent, rfl, ht.place, rfl, rfl⟩ h.stack }
  | property key value =>
    -- the last three change the tops of both stacks, which are alike
    refine h.onTop? (fun f g f' g' hfg hf hg => ?_) hr hs
    obtain rfl := Frame.addProperty?_eq_some hf
    obtain rfl := Frame.addProperty?_eq_some hg
    exact { hfg with properties := map_concat hfg.properties (by simp only [View.property, ht.place]) }
  | tag name =>
    refine h.onTop? (fun f g f' g' hfg hf hg => ?_) hr hs
    obtain ⟨kind, tag, hfh, rfl⟩ := Frame.setTag?_eq_some hf
    obtain ⟨kind', tag', hgh, rfl⟩ := Frame.setTag?_eq_some hg
    cases hfh.symm.trans (hfg.head.trans hgh)
    exact { hfg with head := rfl }
  | loopKey expression =>
    refine h.onTop? (fun f g f' g' hfg hf hg => ?_) hr hs
    obtain ⟨item, index, collection, key, hfh, rfl⟩ := Frame.setKey?_eq_some hf
    obtain ⟨item', index', collection', key', hgh, rfl⟩ := Frame.setKey?_eq_some hg
    cases hfh.symm.trans (hfg.head.trans hgh)
    exact { hfg with head := rfl }

/-- **One line, twice.**  Corresponding lines keep readings alike. -/
theorem Alike.step (h : Alike K r s) (ht : K.Token t u) : Alike K (r.step filename t) (s.step filename u) := by
  have htakes := h.takes ht
  cases hr : r.takes t with
  | true =>
    rw [Reading.step_takes filename hr, Reading.step_takes filename (htakes ▸ hr)]
    exact h.take ht
  | false =>
    have hs : s.takes u = false := htakes ▸ hr
    by_cases hk : t.kind = .comment
    · rw [Reading.step_comment filename hr hk, Reading.step_comment filename hs (ht.kind ▸ hk)]
      exact h.closeCapture
    · have hsettled := (h.settle ht).warn ht
      have hfate : Fate.ofLine (r.settle filename t).context t = Fate.ofLine (s.settle filename u).context u := by
        rw [(h.settle ht).context, fate_eq ht]
      -- the two lines meet the same fate
      obtain ⟨p, hf, -, hstep⟩ | ⟨a, hf, -, hstep⟩ := Reading.step_outcome filename hr hk
      · obtain ⟨q, hf', -, hstep'⟩ | ⟨b, hf', -, -⟩ := Reading.step_outcome filename hs (ht.kind ▸ hk)
        · cases hf.symm.trans (hfate.trans hf')
          rw [hstep, hstep']
          exact hsettled.report ht p
        · cases hf.symm.trans (hfate.trans hf')
      · obtain ⟨q, hf', -, -⟩ | ⟨b, hf', -, hstep'⟩ := Reading.step_outcome filename hs (ht.kind ▸ hk)
        · cases hf.symm.trans (hfate.trans hf')
        · cases hf.symm.trans (hfate.trans hf')
          exact hsettled.addTo? ht hstep hstep'

/-! ### Whole sources -/

theorem Alike.foldl (h : Alike K r s) {ts us : List LineToken} (hts : List.Forall₂ K.Token ts us) :
    Alike K (ts.foldl (Reading.step filename) r) (us.foldl (Reading.step filename) s) := by
  induction hts generalizing r s with
  | nil => exact h
  | cons ht _ ih => exact ih (h.step ht)

theorem alike_nil : Alike K {} {} :=
  ⟨.nil, rfl, .none, .none, rfl, rfl, rfl, rfl, rfl, rfl, rfl⟩

theorem Alike.finish (h : Alike K r s) : Alike K (r.finish filename) (s.finish filename) :=
  h.closeCapture.closeServer.popTo fun _ => by omega

theorem Alike.toDocument (h : Alike K r s) : V.document r.toDocument = W.document s.toDocument := by
  simp only [View.document, View.script, Reading.toDocument, h.roots, h.state, h.functions, h.services, h.aliases,
    h.mount, h.server, h.diagnostics]

/-- **Reading, twice.**  Sources whose lines correspond describe, through the two views, one document. -/
theorem read_alike (K : Correspondence filename V W) {source source' : Text}
    (h : List.Forall₂ K.Token (LineToken.tokenize source) (LineToken.tokenize source')) :
    V.document (read filename source) = W.document (read filename source') :=
  (alike_nil.foldl h).finish.toDocument

end Document

end Trellis
