import Trellis.Editor.Outline
import Trellis.Proofs.EndpointNames
import Trellis.Proofs.Extents
import Trellis.Proofs.MarkupTree
import Trellis.Proofs.NodeVisits

/-!
# The lines that declare

A document defines aliases, state, functions, services with their methods, a mount hook, a server with its state and
routes, and elements.  `definitions` lists them in the order of an outline.  Each of them is declared by one line of the
source: the line has the form of such a declaration, with that name, and the definition is where the line is
(`mem_definitions`).

A line that a capture takes declares at most a service method; what every other line declares can be read off what it
adds (`Fate.declares_of_added`).
-/

namespace Trellis

open Editor (SymbolKind)

theorem exists_mem_of_forall₂ {α β : Type} {R : α → β → Prop} {as : List α} {bs : List β} (h : List.Forall₂ R as bs)
    {a : α} (ha : a ∈ as) : ∃ b ∈ bs, R a b := by
  induction h with
  | nil => cases ha
  | cons hab _ ih =>
    rcases List.mem_cons.mp ha with rfl | ha
    · exact ⟨_, List.mem_cons_self, hab⟩
    · obtain ⟨b, hb, h⟩ := ih ha
      exact ⟨b, List.mem_cons_of_mem _ hb, h⟩

/-- The line has the form of a declaration of this kind and name. -/
def LineToken.Declares (t : LineToken) (name : Text) : SymbolKind → Prop
  | .state => t.kind = .state ∧ ∃ type value, Form.state? t.text = some (type, name, value)
  | .function => t.kind = .fn ∧ ∃ parameters, Form.function? t.text = some (name, parameters)
  | .service => t.kind = .service ∧ ∃ url, Form.service? t.text = some (name, url)
  | .method => ∃ verb path smart, Form.serviceMethod? t.toBodyLine.code = some (verb, name, path, smart)
  | .reference => t.kind = .use ∧ ∃ source, Form.aliasOf? t.text = some (source, name)
  | .mount => t.kind = .onMount ∧ name = "onMount"
  | .server => t.kind = .server ∧ ∃ port, Form.server? t.text = some (name, port)
  | .route => ∃ verb path smart, t.kind = .route verb ∧ Form.route? t.text = some (name, path, smart)
  | .element => t.kind = .element ∧ name = t.text

/-- A definition of a document: what it is, its name, and where it is. -/
structure Definition where
  kind : SymbolKind
  name : Text
  location : Location
  deriving DecidableEq, Repr

def Node.definition? : Node → Option Definition
  | .element kind _ _ _ l => some ⟨.element, kind, l⟩
  | _ => none

namespace Document

/-! ### What an addition defines -/

/-- What a declaration with a body defines. -/
def CaptureHead.defines : CaptureHead → SymbolKind × Text
  | .function name _ => (.function, name)
  | .service name _ => (.service, name)
  | .mount => (.mount, "onMount")
  | .route _ name _ _ => (.route, name)

def Addition.defines? : Addition → Option (SymbolKind × Text)
  | .state _ name _ | .serverState _ name _ => some (.state, name)
  | .aliasOf _ name => some (.reference, name)
  | .capture head => some head.defines
  | .server name _ => some (.server, name)
  | .node (.element kind _) => some (.element, kind)
  | .node _ | .property _ _ | .tag _ | .loopKey _ => none

namespace Fate

variable {c : Context} {t : LineToken} {a : Addition} {kind : SymbolKind} {name : Text}

theorem ofForm_eq_added {α : Type} {p : Problem} {add : α → Addition} {x : Option α} (h : ofForm p add x = .added a) :
    ∃ parts, x = some parts ∧ a = add parts := by
  cases x with
  | none => cases h
  | some parts =>
    cases h
    exact ⟨parts, rfl, rfl⟩

theorem ofMarkup_eq_added {parent : Option Head} {head : Head} (h : ofMarkup parent head = .added a) :
    a = .node head := by
  unfold ofMarkup at h
  split at h
  · cases h
  · cases h
    rfl

theorem ofPseudo_defines {parent : Option Head} {text : Text} (h : ofPseudo parent text = .added a) :
    a.defines? = none := by
  unfold ofPseudo at h
  split at h
  · cases h
  · split at h <;> cases h
    rfl

theorem ofProperty_defines {parent : Option Head} {text : Text} (h : ofProperty parent text = .added a) :
    a.defines? = none := by
  unfold ofProperty at h
  split at h
  · cases h
  · simp only at h
    split at h
    · split at h
      · split at h <;> cases h <;> rfl
      · cases h
        rfl
    · cases h
      rfl
    · split at h <;> cases h
      rfl
    · cases h
    · cases h

theorem declares_of_inServer (h : inServer t = .added a) (ha : a.defines? = some (kind, name)) :
    t.Declares name kind := by
  unfold inServer at h
  split at h
  · next hk =>
    obtain ⟨⟨type, name', value⟩, hform, rfl⟩ := ofForm_eq_added h
    cases ha
    exact ⟨hk, type, value, hform⟩
  · next verb hk =>
    obtain ⟨⟨name', path, smart⟩, hform, rfl⟩ := ofForm_eq_added h
    cases ha
    exact ⟨verb, path, smart, hk, hform⟩
  · cases h

theorem declares_of_outside (h : outside c t = .added a) (ha : a.defines? = some (kind, name)) :
    t.Declares name kind := by
  unfold outside at h
  cases hk : t.kind <;> rw [hk] at h
  case state =>
    obtain ⟨⟨type, name', value⟩, hform, rfl⟩ := ofForm_eq_added h
    cases ha
    exact ⟨hk, type, value, hform⟩
  case fn =>
    obtain ⟨⟨name', parameters⟩, hform, rfl⟩ := ofForm_eq_added h
    cases ha
    exact ⟨hk, parameters, hform⟩
  case server =>
    obtain ⟨⟨name', port⟩, hform, rfl⟩ := ofForm_eq_added h
    cases ha
    exact ⟨hk, port, hform⟩
  case service =>
    obtain ⟨⟨name', url⟩, hform, rfl⟩ := ofForm_eq_added h
    cases ha
    exact ⟨hk, url, hform⟩
  case use =>
    obtain ⟨⟨source, name'⟩, hform, rfl⟩ := ofForm_eq_added h
    cases ha
    exact ⟨hk, source, hform⟩
  case onMount =>
    simp only at h
    split at h <;> cases h
    cases ha
    exact ⟨hk, rfl⟩
  case element =>
    simp only at h
    split at h
    · obtain rfl := ofMarkup_eq_added h
      cases ha
      exact ⟨hk, rfl⟩
    · cases h
  -- the other lines open nodes that are no elements, say something about the innermost node, or are dropped
  case property =>
    rw [ofProperty_defines h] at ha
    cases ha
  case pseudo =>
    rw [ofPseudo_defines h] at ha
    cases ha
  case cond =>
    obtain rfl := ofMarkup_eq_added h
    cases ha
  case otherwise =>
    simp only at h
    split at h <;> cases h
    cases ha
  case loop =>
    simp only at h
    split at h
    · obtain rfl := ofMarkup_eq_added h
      cases ha
    · cases h
  case route verb => cases h
  case comment => cases h
  case unknown => cases h

/-- **A line declares what it adds.** -/
theorem declares_of_added (h : ofLine c t = .added a) (ha : a.defines? = some (kind, name)) : t.Declares name kind := by
  unfold ofLine at h
  split at h
  · exact declares_of_inServer h ha
  · exact declares_of_outside h ha

end Fate

/-! ### The definitions of a document -/

/-- What a document declares besides its markup, in the order of an outline. -/
def declarations (d : Document) : List Definition :=
  d.script.aliases.map (fun a => ⟨.reference, a.name, a.location⟩) ++
    d.script.state.map (fun v => ⟨.state, v.name, v.location⟩) ++
    d.script.functions.map (fun f => ⟨.function, f.name, f.location⟩) ++
    d.script.services.flatMap (fun v =>
      ⟨.service, v.name, v.location⟩ :: v.methods.map fun m => ⟨.method, m.name, m.location⟩) ++
    d.script.mount.toList.map (fun m => ⟨.mount, "onMount", m.location⟩) ++
    d.script.server.toList.flatMap fun s =>
      ⟨.server, s.name, s.location⟩ ::
        (s.state.map (fun v => ⟨.state, v.name, v.location⟩) ++ s.routes.map fun r => ⟨.route, r.name, r.location⟩)

theorem kind_ne_element {d : Document} {x : Definition} (h : x ∈ d.declarations) : x.kind ≠ .element := by
  intro hkind
  simp only [declarations, List.mem_append, List.mem_map, List.mem_flatMap, List.mem_cons] at h
  rcases h with ((((h | h) | h) | h) | h) | h
  · obtain ⟨a, -, rfl⟩ := h
    cases hkind
  · obtain ⟨v, -, rfl⟩ := h
    cases hkind
  · obtain ⟨f, -, rfl⟩ := h
    cases hkind
  · obtain ⟨v, -, rfl | ⟨m, -, rfl⟩⟩ := h <;> cases hkind
  · obtain ⟨m, -, rfl⟩ := h
    cases hkind
  · obtain ⟨s, -, rfl | ⟨v, -, rfl⟩ | ⟨r, -, rfl⟩⟩ := h <;> cases hkind

/-- All definitions of a document: its declarations, and behind them its elements in pre-order. -/
def definitions (d : Document) : List Definition := d.declarations ++ d.visits.filterMap (·.node.definition?)

/-- One of the lines declares the definition, which is where that line is. -/
def DeclaredBy (filename : Option Text) (ts : List LineToken) (x : Definition) : Prop :=
  ∃ t ∈ ts, t.Declares x.name x.kind ∧ x.location = Reading.locate filename t

variable {filename : Option Text} {ts : List LineToken} {x : Definition}

/-- What a contributing line defines it declares. -/
theorem declaredBy_of_contribution {r : Reading} {k : Contribution} (hk : k ∈ contributions filename r ts)
    (hx : k.addition.defines? = some (x.kind, x.name)) (hl : x.location = Reading.locate filename k.line) :
    DeclaredBy filename ts x := by
  obtain ⟨before, -, hadd⟩ := mem_contributions_iff.mp hk
  exact ⟨k.line, line_mem hk, Fate.declares_of_added (Reading.ofLine_of_addition? hadd) hx, hl⟩

theorem declaredBy_of_alias {a : Alias} (h : a ∈ (ofTokens filename ts).script.aliases) :
    DeclaredBy filename ts ⟨.reference, a.name, a.location⟩ := by
  rw [aliases_ofTokens] at h
  obtain ⟨k, hk, ha⟩ := List.mem_filterMap.mp h
  unfold Addition.alias? at ha
  split at ha
  · next hadd =>
    cases ha
    exact declaredBy_of_contribution hk (by rw [hadd]; rfl) rfl
  · cases ha

theorem declaredBy_of_state {v : StateDecl} (h : v ∈ (ofTokens filename ts).script.state) :
    DeclaredBy filename ts ⟨.state, v.name, v.location⟩ := by
  rw [state_ofTokens] at h
  obtain ⟨k, hk, hv⟩ := List.mem_filterMap.mp h
  unfold Addition.state? at hv
  split at hv
  · next hadd =>
    cases hv
    exact declaredBy_of_contribution hk (by rw [hadd]; rfl) rfl
  · cases hv

/-- Whatever has a body is declared by the line in front of its body. -/
theorem declaredBy_of_declared (hts : ts.Pairwise fun a b => a.line < b.line) {b : Declared}
    (h : b ∈ (ofTokens filename ts).declared) :
    DeclaredBy filename ts ⟨b.head.defines.1, b.head.defines.2, b.location⟩ := by
  obtain ⟨k, hk, hadd, hl, -⟩ := mem_declared hts h
  exact declaredBy_of_contribution hk (by rw [hadd]; rfl) hl

theorem declaredBy_of_server {s : Server} (h : (ofTokens filename ts).script.server = some s) :
    DeclaredBy filename ts ⟨.server, s.name, s.location⟩ := by
  obtain ⟨before, t, after, rfl, hat⟩ := server_ofTokens h
  have hk : ⟨t, after, .server s.name s.port⟩ ∈ contributions filename {} (before ++ t :: after) :=
    mem_contributions_iff.mpr ⟨before, rfl, hat.accepted⟩
  exact declaredBy_of_contribution hk rfl hat.location

theorem declaredBy_of_serverState (hts : ts.Pairwise fun a b => a.line < b.line) {s : Server} {v : StateDecl}
    (h : (ofTokens filename ts).script.server = some s) (hv : v ∈ s.state) :
    DeclaredBy filename ts ⟨.state, v.name, v.location⟩ := by
  obtain ⟨before, t, after, rfl, hat⟩ := server_ofTokens h
  rw [hat.state] at hv
  obtain ⟨k, hk, -, hadd, hl⟩ := (mem_serverStates_block hts).mp hv
  exact declaredBy_of_contribution hk (by rw [hadd]; rfl) hl

/-- A method is declared by a line of the body of its service. -/
theorem declaredBy_of_method {source : Text} {v : ServiceDecl} {m : ServiceMethod}
    (hv : v ∈ (read filename source).script.services) (hm : m ∈ v.methods) :
    DeclaredBy filename (LineToken.tokenize source) ⟨.method, m.name, m.location⟩ := by
  have hmem : Declared.ofService v ∈ (read filename source).declared := by
    refine List.mem_append_left _ (List.mem_append_left _ (List.mem_append_right _ ?_))
    exact List.mem_map_of_mem hv
  obtain ⟨k, hk, -, -, hbody⟩ := mem_declared (LineToken.pairwise_tokenize source) hmem
  rw [methods_of_mem_services hv] at hm
  obtain ⟨l, hl, hform, -, hlocation⟩ := method_of_readMethods hm
  have hl : l ∈ k.body := hbody ▸ hl
  obtain ⟨t, ht, rfl⟩ := List.mem_map.mp hl
  obtain ⟨before, hsplit, -⟩ := mem_contributions_iff.mp hk
  refine ⟨t, ?_, ⟨m.verb, m.path, m.smartParams, hform⟩, hlocation⟩
  rw [hsplit]
  exact List.mem_append_right _ (List.mem_cons_of_mem _ ((List.takeWhile_sublist _).mem ht))

/-! ### Elements -/

/-- An element of a forest has an entry in the outline of the forest. -/
theorem exists_entry_of_element {above ns : List Node} {v : Node.Visit} (parent : Option Location)
    (h : v ∈ Node.visitsAll above ns) (hx : v.node.definition? = some x) :
    x.kind = .element ∧ ∃ e ∈ Node.outlineAll parent ns, e.head = .element x.name none ∧ e.location = x.location := by
  induction ns using Node.forest_induction generalizing above parent with
  | nil => cases h
  | cons n ns ihn ihs =>
    rw [Node.visitsAll_cons, List.mem_cons, List.mem_append] at h
    rw [Node.outlineAll]
    rcases h with rfl | h | h
    · cases n with
      | element kind tag ps cs l =>
        cases hx
        exact ⟨rfl, _, List.mem_append_left _ List.mem_cons_self, rfl, rfl⟩
      | _ => cases hx
    · obtain ⟨hkind, e, he, heq⟩ := ihn (some n.location) h
      refine ⟨hkind, e, List.mem_append_left _ ?_, heq⟩
      cases n with
      | pseudo selector ps l => cases he
      | _ => exact List.mem_cons_of_mem _ he
    · obtain ⟨hkind, e, he, heq⟩ := ihs parent h
      exact ⟨hkind, e, List.mem_append_right _ he, heq⟩

theorem declaredBy_of_element {v : Node.Visit} (hts : ts.Pairwise fun a b => a.line < b.line)
    (h : v ∈ (ofTokens filename ts).visits) (hx : v.node.definition? = some x) : DeclaredBy filename ts x := by
  obtain ⟨hkind, e, he, hhead, hl⟩ := exists_entry_of_element none h hx
  have hfollows := follows_run filename hts
  have hchildren : (ofTokens filename ts).children = ((Reading.run filename ts).finish filename).roots := rfl
  rw [hchildren, outlineAll_finish hfollows.shaped] at he
  obtain ⟨t, -, ht⟩ := exists_mem_of_forall₂ hfollows.entries he
  have hopens : t.kind = .element ∧ x.name = t.text := by
    have := ht.opens
    rwa [hhead] at this
  refine ⟨t, ht.mem, ?_, hl.symm.trans ht.location⟩
  rw [hkind]
  exact hopens

/-- **Every definition of a document is declared by a line of its source**, and is where that line is. -/
theorem mem_definitions {source : Text} (h : x ∈ (read filename source).definitions) :
    DeclaredBy filename (LineToken.tokenize source) x := by
  have hts := LineToken.pairwise_tokenize source
  have hbody : ∀ b ∈ (read filename source).declared,
      DeclaredBy filename (LineToken.tokenize source) ⟨b.head.defines.1, b.head.defines.2, b.location⟩ :=
    fun b hb => declaredBy_of_declared hts hb
  have houter : ∀ b ∈ (read filename source).outerDeclared, b ∈ (read filename source).declared :=
    fun b hb => List.mem_append_left _ hb
  simp only [definitions, declarations, List.mem_append, List.mem_map, List.mem_flatMap, List.mem_cons,
    List.mem_filterMap, Option.mem_toList] at h
  -- aliases, state, functions, services with their methods, the mount hook, the server with its parts, elements
  rcases h with ((((((h | h) | h) | h) | h) | h) | h)
  · obtain ⟨a, ha, rfl⟩ := h
    exact declaredBy_of_alias ha
  · obtain ⟨v, hv, rfl⟩ := h
    exact declaredBy_of_state hv
  · obtain ⟨f, hf, rfl⟩ := h
    refine hbody (.ofFunction f) (houter _ ?_)
    exact List.mem_append_left _ (List.mem_append_left _ (List.mem_map_of_mem hf))
  · obtain ⟨v, hv, rfl | ⟨m, hm, rfl⟩⟩ := h
    · refine hbody (.ofService v) (houter _ ?_)
      exact List.mem_append_left _ (List.mem_append_right _ (List.mem_map_of_mem hv))
    · exact declaredBy_of_method hv hm
  · obtain ⟨m, hm, rfl⟩ := h
    refine hbody (.ofMount m) (houter _ ?_)
    exact List.mem_append_right _ (List.mem_map_of_mem (Option.mem_toList.mpr hm))
  · obtain ⟨s, hs, rfl | ⟨v, hv, rfl⟩ | ⟨r, hr, rfl⟩⟩ := h
    · exact declaredBy_of_server hs
    · exact declaredBy_of_serverState hts hs hv
    · refine hbody (.ofRoute r) (List.mem_append_right _ (List.mem_map_of_mem ?_))
      exact List.mem_flatMap.mpr ⟨s, Option.mem_toList.mpr hs, hr⟩
  · obtain ⟨v, hv, hx⟩ := h
    exact declaredBy_of_element hts hv hx

end Document

end Trellis
