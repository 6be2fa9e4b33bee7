import Trellis.Proofs.AwaitKeyword
import Trellis.ServerModule

/-!
# The names of an endpoint

A route and a service method have the same parameters: the words behind the colons of a path, and the names given to
them one by one.  `IsEndpoint` says so of the two lists; every route and every service method of a document has it, and
comes from a line of the source that has the form of an endpoint.  Both generators write these names into lines of code;
`constName?` reads the name off a declaration, and finds the one that was written.
-/

namespace Trellis

namespace Text

/-! ### Texts without a character -/

theorem after?_eq_none {c : Char} {p t : Text} (h : t.head? ≠ some c) : after? (c :: p) t = none := by
  cases t with
  | nil => rfl
  | cons d t => exact if_neg fun heq => h (congrArg some heq.symm)

theorem forall_ne {c : Char} {t : Text} (h : c ∉ t) : ∀ d ∈ t, decide (d ≠ c) = true := by
  intro d hd
  refine decide_eq_true ?_
  rintro rfl
  exact h hd

theorem not_mem_of_isNamePart {c : Char} {n : Text} (hn : ∀ d ∈ n, isNamePart d = true) (hc : isNamePart c = false) :
    c ∉ n := by
  intro hmem
  rw [hn c hmem] at hc
  cases hc

end Text

namespace Form

/-! ### The parameters of a form -/

/-- The parameters of a path are not empty and made of word characters. -/
theorem isWord_of_mem_pathParams {path n : Text} (h : n ∈ pathParams path) :
    n ≠ [] ∧ ∀ c ∈ n, Text.isWord c = true := by
  fun_induction pathParams path with
  | case1 => cases h
  | case2 t hnone ih => exact ih h
  | case3 t hsome ih =>
    rcases List.mem_cons.mp h with rfl | h
    · exact ⟨hsome, fun c hc => List.mem_takeWhile_imp hc⟩
    · exact ih h
  | case4 c t hc ih => exact ih h

theorem isName_of_smartParam? {t n : Text} (h : smartParam? t = some n) : Text.isName n = true := by
  unfold smartParam? at h
  split at h
  · split at h
    · next hname =>
      rw [← Option.some.inj h]
      exact hname
    · cases h
  · cases h

theorem isName_of_mapM {ws params : List Text} (h : ws.mapM smartParam? = some params) :
    ∀ n ∈ params, Text.isName n = true := by
  induction ws generalizing params with
  | nil =>
    cases h
    exact List.forall_mem_nil _
  | cons w ws ih =>
    rw [List.mapM_cons] at h
    obtain ⟨n, hn, h⟩ := Option.bind_eq_some_iff.mp h
    obtain ⟨ns, hns, h⟩ := Option.bind_eq_some_iff.mp h
    rw [← Option.some.inj h]
    exact List.forall_mem_cons.mpr ⟨isName_of_smartParam? hn, ih hns⟩

theorem route?_names {t name path : Text} {smart : List Text} (h : route? t = some (name, path, smart)) :
    ∀ n ∈ smart, Text.isName n = true := by
  unfold route? at h
  split at h
  · split at h
    · obtain ⟨params, hparams, h⟩ := Option.bind_eq_some_iff.mp h
      cases h
      exact isName_of_mapM hparams
    · cases h
  · cases h

theorem serviceMethod?_names {t name path : Text} {verb : Verb} {smart : List Text}
    (h : serviceMethod? t = some (verb, name, path, smart)) :
    Text.isName name = true ∧ ∀ n ∈ smart, Text.isName n = true := by
  unfold serviceMethod? at h
  split at h
  · obtain ⟨v, -, h⟩ := Option.bind_eq_some_iff.mp h
    split at h
    · next hname =>
      obtain ⟨params, hparams, h⟩ := Option.bind_eq_some_iff.mp h
      cases h
      exact ⟨hname, isName_of_mapM hparams⟩
    · cases h
  · cases h

end Form

/-- The parameters of an endpoint: those of its path, and names. -/
structure IsEndpoint (path : Text) (pathParams smartParams : List Text) : Prop where
  path_params : pathParams = Form.pathParams path
  smart_params : ∀ n ∈ smartParams, Text.isName n = true

/-- A parameter of an endpoint is not empty, and made of characters that can stand in a name. -/
theorem IsEndpoint.isNamePart {path : Text} {pathParams smartParams : List Text}
    (h : IsEndpoint path pathParams smartParams) {n : Text} (hn : n ∈ pathParams ++ smartParams) :
    n ≠ [] ∧ ∀ c ∈ n, Text.isNamePart c = true := by
  rcases List.mem_append.mp hn with hn | hn
  · obtain ⟨hne, hword⟩ := Form.isWord_of_mem_pathParams (h.path_params ▸ hn)
    refine ⟨hne, fun c hc => ?_⟩
    rw [Text.isNamePart, hword c hc, Bool.true_or]
  · have hname := h.smart_params n hn
    refine ⟨?_, Code.isNamePart_of_mem_name hname⟩
    rintro rfl
    cases hname

namespace Document

/-! ### The endpoints of a document -/

theorem Fate.route_of_added {c : Context} {t : LineToken} {verb : Verb} {name path : Text} {smart : List Text}
    (h : ofLine c t = .added (.capture (.route verb name path smart))) :
    t.kind = .route verb ∧ Form.route? t.text = some (name, path, smart) := by
  -- only inside a server a line adds a route
  have hserver : c.inServer = true := by
    have hsound := Fate.sound c t
    rw [h] at hsound
    exact hsound
  rw [ofLine, if_pos hserver, inServer] at h
  cases hk : t.kind with
  | route v =>
    rw [hk] at h
    cases hform : Form.route? t.text with
    | none =>
      rw [hform] at h
      cases h
    | some parts =>
      rw [hform] at h
      cases h
      exact ⟨rfl, rfl⟩
  | state =>
    -- of the lines inside a server, state declarations add something else and others nothing
    rw [hk] at h
    cases hform : Form.state? t.text with
    | none =>
      rw [hform] at h
      cases h
    | some parts =>
      rw [hform] at h
      cases h
  | _ =>
    rw [hk] at h
    cases h

theorem Reading.ofLine_of_addition? {filename : Option Text} {r : Reading} {t : LineToken} {a : Addition}
    (h : r.addition? filename t = some a) : Fate.ofLine (r.settle filename t).context t = .added a := by
  unfold Reading.addition? at h
  split at h
  · cases h
  · split at h
    · cases h
    · next hfate => rw [hfate, Option.some.inj h]

section

variable {filename : Option Text} {source : Text}

/-- **A route of a document** comes from a route line of the source. -/
theorem route_of_mem_routes {s : Server} {r : Route} (hs : (read filename source).script.server = some s)
    (hr : r ∈ s.routes) :
    ∃ t ∈ LineToken.tokenize source, t.kind = .route r.verb ∧
      Form.route? t.text = some (r.name, r.path, r.smartParams) ∧ r.pathParams = Form.pathParams r.path := by
  obtain ⟨before, t, after, hts, hat⟩ := server_ofTokens hs
  have hreads := Reading.reads_step filename (Reading.run filename before) t
  rw [hat.accepted, ← Reading.run_concat] at hreads
  rw [hat.routes] at hr
  obtain ⟨c, hc, hroute⟩ := List.mem_filterMap.mp hr
  obtain ⟨k, hk, hadd, -, -⟩ := mem_captures hreads.opens_server.2 hc
  -- the routes are read in the block of the server, behind its line
  have hline : k.line ∈ after := (List.takeWhile_sublist _).mem (line_mem hk)
  obtain ⟨earlier, -, haddition⟩ := mem_contributions_iff.mp hk
  unfold Capture.route? at hroute
  split at hroute
  · next verb name path smart hhead =>
    cases hroute
    rw [hadd, hhead] at haddition
    obtain ⟨hkind, hform⟩ := Fate.route_of_added (Reading.ofLine_of_addition? haddition)
    refine ⟨k.line, ?_, hkind, hform, rfl⟩
    rw [hts]
    exact List.mem_append_right _ (List.mem_cons_of_mem t hline)
  · cases hroute

theorem endpoint_of_mem_routes {s : Server} {r : Route} (hs : (read filename source).script.server = some s)
    (hr : r ∈ s.routes) : IsEndpoint r.path r.pathParams r.smartParams := by
  obtain ⟨t, -, -, hform, hpath⟩ := route_of_mem_routes hs hr
  exact ⟨hpath, Form.route?_names hform⟩

/-- The methods of a service come from its lines, and are where these are. -/
theorem method_of_readMethods {lines : List BodyLine} {m : ServiceMethod}
    (hm : m ∈ (Reading.readMethods filename lines).1) :
    ∃ l ∈ lines, Form.serviceMethod? l.code = some (m.verb, m.name, m.path, m.smartParams) ∧
      m.pathParams = Form.pathParams m.path ∧ m.location = Statement.locate filename l := by
  induction lines with
  | nil => cases hm
  | cons l ls ih =>
    have hrest : m ∈ (Reading.readMethods filename ls).1 →
        ∃ k ∈ l :: ls, Form.serviceMethod? k.code = some (m.verb, m.name, m.path, m.smartParams) ∧
          m.pathParams = Form.pathParams m.path ∧ m.location = Statement.locate filename k := by
      intro h
      obtain ⟨k, hk, hform⟩ := ih h
      exact ⟨k, List.mem_cons_of_mem l hk, hform⟩
    simp only [Reading.readMethods] at hm
    split at hm
    · -- a comment or blank line
      exact hrest hm
    · split at hm
      · -- the line of a method, and then those behind it
        next verb name path smart hform =>
        rcases List.mem_cons.mp hm with rfl | hm
        · exact ⟨l, List.mem_cons_self, hform, rfl, rfl⟩
        · exact hrest hm
      · exact hrest hm

/-- The methods that a document gives a service are those of the lines of its body. -/
theorem methods_of_mem_services {v : ServiceDecl} (hv : v ∈ (read filename source).script.services) :
    v.methods = (Reading.readMethods filename v.body).1 := by
  rw [read, (declared_ofTokens filename _).2.1] at hv
  obtain ⟨c, -, hc⟩ := List.mem_filterMap.mp hv
  unfold Capture.service? at hc
  split at hc
  · cases hc
    rfl
  · cases hc

/-- **A service method of a document** comes from a line of the service. -/
theorem method_of_mem_methods {v : ServiceDecl} {m : ServiceMethod} (hv : v ∈ (read filename source).script.services)
    (hm : m ∈ v.methods) :
    ∃ l ∈ v.body, Form.serviceMethod? l.code = some (m.verb, m.name, m.path, m.smartParams) ∧
      m.pathParams = Form.pathParams m.path := by
  rw [methods_of_mem_services hv] at hm
  obtain ⟨l, hl, hform, hpath, -⟩ := method_of_readMethods hm
  exact ⟨l, hl, hform, hpath⟩

end

end Document

namespace Code

/-! ### Declarations -/

/-- The name that a line declares with `const`, when `lead` stands behind it. -/
def constName? (lead t : Text) : Option Text := do
  let r ← Text.after? "const " t
  if Text.startsWith (r.dropWhile (· ≠ ' ')) lead then some (r.takeWhile (· ≠ ' ')) else none

/-- A line that does not start with `const` declares nothing. -/
theorem constName?_eq_none {lead t : Text} (h : t.head? ≠ some 'c') : constName? lead t = none := by
  have hafter : Text.after? "const " t = none := Text.after?_eq_none h
  unfold constName?
  rw [hafter]
  rfl

theorem constName?_const {lead n r rest : Text} (hn : ∀ c ∈ n, Text.isNamePart c = true) (hlead : lead.head? = some ' ')
    (hr : r = lead ++ rest) : constName? lead ("const " ++ n ++ r) = some n := by
  obtain ⟨lead, rfl⟩ := List.head?_eq_some_iff.mp hlead
  have hblank : ∀ c ∈ n, decide (c ≠ ' ') = true := Text.forall_ne (Text.not_mem_of_isNamePart hn (by decide))
  have hafter : Text.after? "const " ("const " ++ n ++ r) = some (n ++ r) :=
    Text.after?_eq_some_iff.mpr (List.append_assoc _ _ _)
  have hstart : Text.startsWith (' ' :: (lead ++ rest)) (' ' :: lead) = true := by
    have hsplit : Text.after? (' ' :: lead) (' ' :: (lead ++ rest)) = some rest := Text.after?_eq_some_iff.mpr rfl
    rw [Text.startsWith, hsplit]
    rfl
  unfold constName?
  rw [hafter, Option.bind_eq_bind, Option.bind_some, List.takeWhile_append_of_pos hblank,
    List.dropWhile_append_of_pos hblank, hr, List.cons_append, List.takeWhile_cons_of_neg (by simp),
    List.dropWhile_cons_of_neg (by simp), hstart, if_pos rfl, List.append_nil]

end Code

end Trellis
