import Trellis.Proofs.Outline
import Trellis.Proofs.ServerBlock

/-!
# Where the parts of a document come from

Every node, property and declaration of a document has a place, and every place is that of a line which adds something.
`markupPlaces_foldl` says so for the markup, along the reading; `outerPlaces_ofTokens` for everything in a document but
the state and the routes of its server, which come from the server's block (`server_ofTokens`).
-/

namespace Trellis

namespace Node

mutual

/-- The places of a node, of its properties and of everything below it. -/
def places : Node → List Location
  | .element _ _ ps cs l => l :: (ps.map (·.location) ++ placesAll cs)
  | .pseudo _ ps l => l :: ps.map (·.location)
  | .condition _ cs l => l :: placesAll cs
  | .loop _ _ _ _ cs l => l :: placesAll cs

/-- The places of a forest. -/
def placesAll : List Node → List Location
  | [] => []
  | n :: ns => places n ++ placesAll ns

end

theorem placesAll_append (ns ms : List Node) : placesAll (ns ++ ms) = placesAll ns ++ placesAll ms := by
  induction ns with
  | nil => rfl
  | cons n ns ih => rw [List.cons_append, placesAll, placesAll, ih, List.append_assoc]

end Node

namespace Document

/-- The places of an open node, of its properties and of the closed nodes below it. -/
def Frame.allPlaces (f : Frame) : List Location :=
  f.location :: (f.properties.map (·.location) ++ Node.placesAll f.children)

/-- The places of the markup that has been read, open or closed. -/
def Reading.markupPlaces (r : Reading) : List Location := r.stack.flatMap Frame.allPlaces ++ Node.placesAll r.roots

variable {filename : Option Text} {r s : Reading} {t : LineToken} {ts : List LineToken} {l : Location}
  {x : Option Addition}

/-! ### Markup -/

theorem Frame.places_close {f : Frame} (h : l ∈ f.close.places) : l ∈ f.allPlaces := by
  unfold Frame.close at h
  unfold Frame.allPlaces
  cases hf : f.head <;> simp only [hf, Node.places, List.mem_cons, List.mem_append] at h ⊢ <;> tauto

theorem closeFrames_places (indent : Nat) (stack : List Frame) (roots : List Node)
    (h : l ∈ (Reading.closeFrames indent stack roots).1.flatMap Frame.allPlaces ++
      Node.placesAll (Reading.closeFrames indent stack roots).2) :
    l ∈ stack.flatMap Frame.allPlaces ++ Node.placesAll roots := by
  -- a place of what is left was there before
  refine Reading.closeFrames_keeps
    (P := fun fs ns => l ∈ fs.flatMap Frame.allPlaces ++ Node.placesAll ns →
      l ∈ stack.flatMap Frame.allPlaces ++ Node.placesAll roots) ?_ ?_ indent id h
  · intro f ns ih h
    rw [Node.placesAll_append] at h
    simp only [List.flatMap_nil, List.nil_append, Node.placesAll, List.append_nil, List.mem_append] at h
    simp only [List.flatMap_cons, List.flatMap_nil, List.append_nil, List.mem_append] at ih ⊢
    exact ih (h.symm.imp_left Frame.places_close)
  · intro f g fs ns ih h
    refine ih ?_
    simp only [List.flatMap_cons, Frame.allPlaces, Node.placesAll_append, Node.placesAll, List.append_nil,
      List.cons_append, List.mem_cons, List.mem_append] at h
    simp only [List.flatMap_cons, List.mem_append]
    have hclose : l ∈ f.close.places → l ∈ f.allPlaces := Frame.places_close
    simp only [Frame.allPlaces, List.mem_cons, List.mem_append] at hclose ⊢
    tauto

theorem markupPlaces_popTo (n : Nat) (h : l ∈ (r.popTo n).markupPlaces) : l ∈ r.markupPlaces :=
  closeFrames_places n r.stack r.roots h

theorem markupPlaces_closeCapture (filename : Option Text) (r : Reading) :
    (r.closeCapture filename).markupPlaces = r.markupPlaces := by
  rw [Reading.closeCapture_frame]
  rfl

theorem markupPlaces_closeServer (r : Reading) : r.closeServer.markupPlaces = r.markupPlaces := by
  rw [Reading.closeServer_frame]
  rfl

theorem markupPlaces_settle (h : l ∈ (r.settle filename t).markupPlaces) : l ∈ r.markupPlaces := by
  simp only [Reading.settle] at h
  split at h
  · rwa [markupPlaces_closeCapture] at h
  · have h := markupPlaces_popTo t.indent h
    rwa [markupPlaces_closeServer, markupPlaces_closeCapture] at h

/-- Changing the innermost open node brings at most its new places. -/
theorem markupPlaces_onTop? {change : Frame → Option Frame} (hs : r.onTop? change = some s)
    (hchange : ∀ f f', change f = some f' → ∀ l ∈ f'.allPlaces, l ∈ f.allPlaces ∨ l = Reading.locate filename t)
    (h : l ∈ s.markupPlaces) : l ∈ r.markupPlaces ∨ l = Reading.locate filename t := by
  obtain ⟨f, fs, f', hf, hf', rfl⟩ := Reading.onTop?_eq_some hs
  simp only [Reading.markupPlaces, List.flatMap_cons, List.mem_append] at h
  simp only [Reading.markupPlaces, hf, List.flatMap_cons, List.mem_append]
  have hnew := hchange f f' hf' l
  tauto

theorem markupPlaces_addTo? {a : Addition} (hs : a.addTo? filename t r = some s) (h : l ∈ s.markupPlaces) :
    l ∈ r.markupPlaces ∨ (a.forServer = false ∧ l = Reading.locate filename t) := by
  -- what changes the top of the stack adds at most the place of the line
  have htop : ∀ change, r.onTop? change = some s →
      (∀ f f', change f = some f' → ∀ l ∈ f'.allPlaces, l ∈ f.allPlaces ∨ l = Reading.locate filename t) →
      l ∈ r.markupPlaces ∨ l = Reading.locate filename t :=
    fun change hs hchange => markupPlaces_onTop? hs hchange h
  cases a with
  | node head =>
    cases hs
    simp only [Reading.markupPlaces, Reading.push, List.flatMap_cons, List.mem_append, Frame.allPlaces, List.map_nil,
      Node.placesAll, List.append_nil, List.mem_singleton] at h
    simp only [Reading.markupPlaces, List.mem_append, Addition.forServer, true_and]
    tauto
  | property key value =>
    refine (htop _ hs fun f f' hf l hl => ?_).imp_right fun h => ⟨rfl, h⟩
    obtain rfl := Frame.addProperty?_eq_some hf
    simp only [Frame.allPlaces, List.map_append, List.map_cons, List.map_nil, List.mem_cons, List.mem_append,
      List.not_mem_nil, or_false] at hl ⊢
    tauto
  | tag name =>
    refine (htop _ hs fun f f' hf l hl => ?_).imp_right fun h => ⟨rfl, h⟩
    obtain ⟨kind, tag, -, rfl⟩ := Frame.setTag?_eq_some hf
    exact .inl hl
  | loopKey expression =>
    refine (htop _ hs fun f f' hf l hl => ?_).imp_right fun h => ⟨rfl, h⟩
    obtain ⟨item, index, collection, key, -, rfl⟩ := Frame.setKey?_eq_some hf
    exact .inl hl
  | serverState type name value =>
    -- the others leave the nodes alone
    obtain ⟨o, -, rfl⟩ := Option.map_eq_some_iff.mp hs
    exact .inl h
  | capture head =>
    simp only [Addition.addTo?] at hs
    split at hs <;> cases hs
    exact .inl h
  | server name port =>
    simp only [Addition.addTo?] at hs
    split at hs <;> cases hs
    exact .inl h
  | state type name value =>
    cases hs
    exact .inl h
  | aliasOf source name =>
    cases hs
    exact .inl h

theorem Reading.Reads.markupPlaces (hr : Reads filename r t x s) (h : l ∈ s.markupPlaces) :
    l ∈ r.markupPlaces ∨ ∃ a ∈ x, a.forServer = false ∧ l = locate filename t := by
  cases hr with
  | taken ht => exact .inl h
  | comment ht hk =>
    rw [markupPlaces_closeCapture] at h
    exact .inl h
  | dropped ht hk p => exact .inl (markupPlaces_settle (t := t) h)
  | @added a _ ht hk hfit ha =>
    obtain h | h := markupPlaces_addTo? ha h
    · exact .inl (markupPlaces_settle (t := t) h)
    · exact .inr ⟨a, rfl, h⟩

/-- The markup that has been read sits where lines outside servers add something. -/
theorem markupPlaces_foldl (r : Reading) (ts : List LineToken)
    (h : l ∈ (ts.foldl (Reading.step filename) r).markupPlaces) :
    l ∈ r.markupPlaces ∨
      ∃ k ∈ contributions filename r ts, k.addition.forServer = false ∧ l = Reading.locate filename k.line := by
  induction ts generalizing r with
  | nil => exact .inl h
  | cons t ts ih =>
    rw [contributions]
    obtain h | ⟨k, hk, hl⟩ := ih _ h
    · obtain h | ⟨a, ha, hl⟩ := (Reading.reads_step filename r t).markupPlaces h
      · exact .inl h
      · refine .inr ⟨⟨t, ts, a⟩, List.mem_append_left _ ?_, hl⟩
        rw [Option.mem_def.mp ha]
        exact List.mem_singleton_self _
    · exact .inr ⟨k, List.mem_append_right _ hk, hl⟩

/-! ### Declarations with a body -/

/-- A declaration with a body: what it declares, where it is, and its body. -/
structure Declared where
  head : CaptureHead
  location : Location
  body : List BodyLine
  deriving DecidableEq, Repr

namespace Declared

/-- A function as a declaration. -/
def ofFunction (f : FunctionDecl) : Declared := ⟨.function f.name f.parameters, f.location, f.body⟩

def ofService (v : ServiceDecl) : Declared := ⟨.service v.name v.baseUrl, v.location, v.body⟩

def ofMount (m : MountHook) : Declared := ⟨.mount, m.location, m.body⟩

def ofRoute (ρ : Route) : Declared := ⟨.route ρ.verb ρ.name ρ.path ρ.smartParams, ρ.location, ρ.body⟩

end Declared

/-- The declarations of a document outside its server. -/
def outerDeclared (d : Document) : List Declared :=
  d.script.functions.map .ofFunction ++ d.script.services.map .ofService ++ d.script.mount.toList.map .ofMount

/-- The routes of a document's server. -/
def serverRoutes (d : Document) : List Route := d.script.server.toList.flatMap (·.routes)

/-- All declarations of a document that have a body. -/
def declared (d : Document) : List Declared := d.outerDeclared ++ d.serverRoutes.map .ofRoute

def Capture.declared (c : Capture) : Declared := ⟨c.head, c.location, c.lines⟩

/-- Whatever a capture declares has its head, its place and its lines. -/
theorem Capture.declared_eq (filename : Option Text) (c : Capture) :
    (∀ f, c.function? filename = some f → .ofFunction f = c.declared) ∧
      (∀ v, c.service? filename = some v → .ofService v = c.declared) ∧
      (∀ m, c.mount? filename = some m → .ofMount m = c.declared) ∧
      ∀ ρ, c.route? filename = some ρ → .ofRoute ρ = c.declared := by
  obtain ⟨indent, head, location, lines⟩ := c
  cases head <;> simp [function?, service?, mount?, route?, Capture.declared, Declared.ofFunction, Declared.ofService,
    Declared.ofMount, Declared.ofRoute]

/-! ### Documents -/

/-- The places of a document, those of its server's state and routes apart. -/
def outerPlaces (d : Document) : List Location :=
  Node.placesAll d.children ++ d.script.state.map (·.location) ++ d.script.aliases.map (·.location) ++
    d.outerDeclared.map (·.location) ++ d.script.server.toList.map (·.location)

/-- The places of the server's state and routes. -/
def serverPlaces (d : Document) : List Location :=
  d.script.server.toList.flatMap fun s => s.state.map (·.location) ++ s.routes.map (·.location)

/-- The places of everything in a document, the inside of bodies apart. -/
def places (d : Document) : List Location := d.outerPlaces ++ d.serverPlaces

/-- The block of a server line: what follows it up to the first line that is neither a comment nor deeper. -/
def block (t : LineToken) (after : List LineToken) : List LineToken := after.takeWhile (inside t.indent)

/-- The lines behind the block of a server line. -/
def beyond (t : LineToken) (after : List LineToken) : List LineToken := after.dropWhile (inside t.indent)

/-- Without an open capture, the captures of a text are opened by its lines. -/
theorem mem_captures {c : Capture} (hr : r.capture = none) (h : c ∈ captures filename r ts) :
    ∃ k ∈ contributions filename r ts,
      k.addition = .capture c.head ∧ c.location = Reading.locate filename k.line ∧ c.lines = k.body := by
  unfold captures Reading.pending at h
  rw [hr] at h
  obtain ⟨k, hk, hc⟩ := List.mem_filterMap.mp h
  obtain ⟨c', hc', rfl⟩ := Option.map_eq_some_iff.mp hc
  refine ⟨k, hk, ?_⟩
  cases ha : k.addition with
  | capture head =>
    rw [ha] at hc'
    cases hc'
    exact ⟨rfl, rfl, rfl⟩
  | _ =>
    rw [ha] at hc'
    cases hc'

theorem mem_captures_of_capture {k : Contribution} {head : CaptureHead} (hk : k ∈ contributions filename r ts)
    (ha : k.addition = .capture head) :
    ⟨k.line.indent, head, Reading.locate filename k.line, k.body⟩ ∈ captures filename r ts := by
  refine List.mem_append_right _ (List.mem_filterMap.mpr ⟨k, hk, ?_⟩)
  unfold Contribution.capture?
  rw [ha]
  rfl

/-- Finishing closes what is open, and adds nothing of its own. -/
theorem finish_parts (filename : Option Text) (r : Reading) :
    (r.finish filename).state = r.state ∧ (r.finish filename).aliases = r.aliases ∧
      (r.finish filename).functions = (r.closeCapture filename).functions ∧
      (r.finish filename).services = (r.closeCapture filename).services ∧
      (r.finish filename).mount = (r.closeCapture filename).mount ∧
      (r.finish filename).server = (r.closeCapture filename).closeServer.server := by
  unfold Reading.finish Reading.popTo
  rw [Reading.closeServer_frame, Reading.closeCapture_frame]
  exact ⟨rfl, rfl, rfl, rfl, rfl, rfl⟩

/-- The state of a document is what its lines add outside servers. -/
theorem state_ofTokens (filename : Option Text) (ts : List LineToken) :
    (ofTokens filename ts).script.state =
      (contributions filename {} ts).filterMap fun k => k.addition.state? (Reading.locate filename k.line) :=
  (finish_parts filename _).1.trans (Reading.foldl_added (fun h => h.state) {} ts)

theorem aliases_ofTokens (filename : Option Text) (ts : List LineToken) :
    (ofTokens filename ts).script.aliases =
      (contributions filename {} ts).filterMap fun k => k.addition.alias? (Reading.locate filename k.line) :=
  (finish_parts filename _).2.1.trans (Reading.foldl_added (fun h => h.aliases) {} ts)

/-- The functions, the services and the mount hook of a document are what its captures declare. -/
theorem declared_ofTokens (filename : Option Text) (ts : List LineToken) :
    (ofTokens filename ts).script.functions = (captures filename {} ts).filterMap (·.function? filename) ∧
      (ofTokens filename ts).script.services = (captures filename {} ts).filterMap (·.service? filename) ∧
      (ofTokens filename ts).script.mount = ((captures filename {} ts).filterMap (·.mount? filename)).getLast? := by
  obtain ⟨-, -, hf, hs, hm, -⟩ := finish_parts filename (ts.foldl (Reading.step filename) {})
  obtain ⟨hf', hs', hm'⟩ := declared_foldl filename {} ts
  exact ⟨hf.trans hf', hs.trans hs', hm.trans (hm'.trans Option.or_none)⟩

theorem firstServer_ofTokens (filename : Option Text) (ts : List LineToken) :
    (ofTokens filename ts).script.server = (firstServer filename {} ts).map (·.server) := by
  obtain ⟨-, -, -, -, -, hserver⟩ := finish_parts filename (ts.foldl (Reading.step filename) {})
  exact hserver.trans (server_foldl filename ts Reading.guarded_nil)

/-- Only without an accepted server line has a document no server. -/
theorem isServer_of_no_server (h : (ofTokens filename ts).script.server = none) :
    ∀ k ∈ contributions filename {} ts, k.addition.isServer = false := by
  rw [firstServer_ofTokens, Option.map_eq_none_iff] at h
  exact firstServer_eq_none h

/-- The server is the one of the line `t`, the first accepted server line, with what its block adds. -/
structure ServerAt (filename : Option Text) (s : Server) (before : List LineToken) (t : LineToken)
    (after : List LineToken) : Prop where
  accepted : (Reading.run filename before).addition? filename t = some (.server s.name s.port)
  location : s.location = Reading.locate filename t
  first : ∀ k ∈ contributions filename {} before, k.addition.isServer = false
  state : s.state = serverStates filename (Reading.run filename (before ++ [t])) (block t after)
  routes : s.routes = routes filename (Reading.run filename (before ++ [t])) (block t after)

/-- **The server of a document** is the one of the first accepted server line. -/
theorem server_ofTokens {s : Server} (h : (ofTokens filename ts).script.server = some s) :
    ∃ before t after, ts = before ++ t :: after ∧ ServerAt filename s before t after := by
  rw [firstServer_ofTokens] at h
  obtain ⟨o, ho, rfl⟩ := Option.map_eq_some_iff.mp h
  obtain ⟨before, t, after, name, port, hts, hadd, hnone, hwith⟩ := firstServer_eq_some ho
  have hreads := Reading.reads_step filename (Reading.run filename before) t
  rw [show (Reading.run filename before).addition? filename t = _ from hadd, ← Reading.run_concat] at hreads
  obtain ⟨hopen, -⟩ := hreads.opens_server
  unfold Reading.serverWith at hwith
  rw [show (before ++ [t]).foldl (Reading.step filename) {} = Reading.run filename (before ++ [t]) from rfl, hopen] at hwith
  cases hwith
  exact ⟨before, t, after, hts, hadd, rfl, hnone, rfl, rfl⟩

/-- The declarations outside the server come from captures, and none is a route. -/
theorem outerDeclared_ofTokens {b : Declared} (h : b ∈ (ofTokens filename ts).outerDeclared) :
    (∃ c ∈ captures filename {} ts, b = c.declared) ∧ Addition.forServer (.capture b.head) = false := by
  obtain ⟨hfunctions, hservices, hmount⟩ := declared_ofTokens filename ts
  simp only [outerDeclared, List.mem_append, List.mem_map, Option.mem_toList] at h
  obtain (⟨f, hf, rfl⟩ | ⟨v, hv, rfl⟩) | ⟨m, hm, rfl⟩ := h
  · rw [hfunctions] at hf
    obtain ⟨c, hc, hf⟩ := List.mem_filterMap.mp hf
    exact ⟨⟨c, hc, (c.declared_eq filename).1 f hf⟩, rfl⟩
  · rw [hservices] at hv
    obtain ⟨c, hc, hv⟩ := List.mem_filterMap.mp hv
    exact ⟨⟨c, hc, (c.declared_eq filename).2.1 v hv⟩, rfl⟩
  · rw [hmount] at hm
    obtain ⟨c, hc, hm⟩ := List.mem_filterMap.mp (List.mem_of_getLast? hm)
    exact ⟨⟨c, hc, (c.declared_eq filename).2.2.1 m hm⟩, rfl⟩

/-- Everything in a document but the state and the routes of its server comes from a line that adds something and is
in no server. -/
theorem outerPlaces_ofTokens (h : l ∈ (ofTokens filename ts).outerPlaces) :
    ∃ k ∈ contributions filename {} ts, k.addition.forServer = false ∧ l = Reading.locate filename k.line := by
  simp only [outerPlaces, List.mem_append, List.mem_map, Option.mem_toList] at h
  obtain (((h | ⟨d, hd, rfl⟩) | ⟨a, ha, rfl⟩) | ⟨b, hb, rfl⟩) | ⟨s, hs, rfl⟩ := h
  · have hroots : l ∈ ((ts.foldl (Reading.step filename) {}).finish filename).markupPlaces := List.mem_append_right _ h
    have hpop := markupPlaces_popTo 0 hroots
    rw [markupPlaces_closeServer, markupPlaces_closeCapture] at hpop
    obtain hnil | h := markupPlaces_foldl {} ts hpop
    · cases hnil
    · exact h
  · -- state and aliases are filtered out of the contributions
    rw [state_ofTokens] at hd
    obtain ⟨k, hk, hd⟩ := List.mem_filterMap.mp hd
    refine ⟨k, hk, ?_⟩
    cases ha : k.addition <;> rw [ha] at hd <;> cases hd
    exact ⟨rfl, rfl⟩
  · rw [aliases_ofTokens] at ha
    obtain ⟨k, hk, hd⟩ := List.mem_filterMap.mp ha
    refine ⟨k, hk, ?_⟩
    cases ha : k.addition <;> rw [ha] at hd <;> cases hd
    exact ⟨rfl, rfl⟩
  · obtain ⟨⟨c, hc, rfl⟩, hfor⟩ := outerDeclared_ofTokens hb
    obtain ⟨k, hk, ha, hloc, -⟩ := mem_captures rfl hc
    exact ⟨k, hk, ha ▸ hfor, hloc⟩
  · -- the server itself
    obtain ⟨before, t, after, rfl, hat⟩ := server_ofTokens hs
    exact ⟨⟨t, after, _⟩, mem_contributions_iff.mpr ⟨before, rfl, hat.accepted⟩, rfl, hat.location⟩

end Document

end Trellis
