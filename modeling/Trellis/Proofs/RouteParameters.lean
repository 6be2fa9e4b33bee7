import Mathlib.Data.List.Nodup
import Trellis.Proofs.EndpointNames

/-!
# The parameters of a route handler

A handler takes its request apart with one `const` line for each parameter of the path, and one for each named parameter
that the path does not have.  So a name that is in both lists is declared once, from the path.  But each list is taken
as it stands: a name that occurs twice in the path, or twice among the named parameters and not in the path, is declared
twice (`routeLines_names`).
-/

namespace Trellis.ServerModule

/-- The names that lines declare from the request. -/
def requestNames (ls : List CodeLine) : List Text := ls.filterMap fun l => Code.constName? " = req." l.text

theorem requestNames_append (xs ys : List CodeLine) : requestNames (xs ++ ys) = requestNames xs ++ requestNames ys :=
  List.filterMap_append

theorem filterMap_map_some {α β : Type} {f : β → Option α} {g : α → β} {xs : List α} (h : ∀ x ∈ xs, f (g x) = some x) :
    (xs.map g).filterMap f = xs := by
  rw [List.filterMap_map]
  exact (List.filterMap_congr h).trans List.filterMap_some

/-- The declared names: those of the path, and the named ones that are not among them. -/
theorem requestNames_parameterLines {r : Route} (h : IsEndpoint r.path r.pathParams r.smartParams) :
    requestNames (parameterLines r) = r.pathParams ++ r.smartParams.filter (!r.pathParams.contains ·) := by
  unfold parameterLines
  rw [requestNames_append]
  congr 1
  · -- the parameters of the path come from `req.params`
    refine filterMap_map_some fun n hn => ?_
    have hpart := (h.isNamePart (List.mem_append_left _ hn)).2
    have hline : ("const " ++ n ++ " = req.params." ++ n ++ ";" : Text) =
        "const " ++ n ++ (" = req." ++ ("params." ++ n ++ ";")) := by
      simp only [List.append_assoc]
      rfl
    exact (congrArg _ hline).trans (Code.constName?_const hpart rfl rfl)
  · -- the named ones come from the query or the body, by the verb
    refine filterMap_map_some fun n hn => ?_
    have hpart := (h.isNamePart (List.mem_append_right _ (List.mem_of_mem_filter hn))).2
    have hsource : ∃ rest : Text, (if r.verb = .get then ("req.query" : Text) else "req.body") = "req." ++ rest := by
      split
      · exact ⟨"query", rfl⟩
      · exact ⟨"body", rfl⟩
    obtain ⟨source, hsource⟩ := hsource
    have hline : ("const " ++ n ++ " = " ++ (if r.verb = .get then ("req.query" : Text) else "req.body") ++ "." ++ n ++
        ";" : Text) = "const " ++ n ++ (" = req." ++ (source ++ "." ++ n ++ ";")) := by
      rw [hsource]
      simp only [List.append_assoc]
      rfl
    exact (congrArg _ hline).trans (Code.constName?_const hpart rfl rfl)

/-- Apart from the parameters only the body of the route can declare a name from the request. -/
theorem requestNames_routeLines (r : Route) :
    requestNames (routeLines r) =
      requestNames (parameterLines r) ++ requestNames (Code.emitRouteAll 1 r.statements) := by
  have hheader : Code.constName? " = req." ("app." ++ r.verb.name ++ "(" ++ Escape.quotedString r.path ++
      ", async (req, res) => \x7b") = none := Code.constName?_eq_none (by simp)
  have hfallback : requestNames (fallbackLines r) = [] := by
    unfold fallbackLines
    split <;> rfl
  have hend : requestNames [⟨0, "\x7d);"⟩] = [] := rfl
  unfold routeLines
  rw [requestNames_append, requestNames_append, requestNames_append, hfallback, hend, List.append_nil, List.append_nil]
  exact congrArg (· ++ requestNames (Code.emitRouteAll 1 r.statements)) (List.filterMap_cons_none hheader)

/-- How often a name occurs among the declared ones. -/
theorem count_declared (ps qs : List Text) (n : Text) :
    (ps ++ qs.filter (!ps.contains ·)).count n = if n ∈ ps then ps.count n else qs.count n := by
  rw [List.count_append]
  split
  · next hn =>
    have hout : (qs.filter (!ps.contains ·)).count n = 0 := by
      refine List.count_eq_zero.mpr fun hmem => ?_
      simp [hn] at hmem
    omega
  · next hn =>
    rw [List.count_filter (by simpa using hn), List.count_eq_zero.mpr hn, Nat.zero_add]

/-- **The names that a handler declares from the request**, for a route of a document: a name of the path as often as it
is in the path, any other named parameter as often as it is named.  So no name is declared twice exactly when neither
the path nor the named parameters that are not in the path have one twice. -/
theorem routeLines_names (filename : Option Text) (source : Text) (s : Server) (r : Route)
    (hs : (Document.read filename source).script.server = some s) (hr : r ∈ s.routes) :
    (∃ t ∈ LineToken.tokenize source, t.kind = .route r.verb ∧
      Form.route? t.text = some (r.name, r.path, r.smartParams)) ∧
    requestNames (routeLines r) =
      requestNames (parameterLines r) ++ requestNames (Code.emitRouteAll 1 r.statements) ∧
    (∀ n, (requestNames (parameterLines r)).count n =
      if n ∈ Form.pathParams r.path then (Form.pathParams r.path).count n else r.smartParams.count n) ∧
    ((requestNames (parameterLines r)).Nodup ↔
      (Form.pathParams r.path).Nodup ∧ (r.smartParams.filter (!(Form.pathParams r.path).contains ·)).Nodup) := by
  obtain ⟨t, ht, hkind, hform, hpath⟩ := Document.route_of_mem_routes hs hr
  have hnames := requestNames_parameterLines (Document.endpoint_of_mem_routes hs hr)
  rw [hpath] at hnames
  refine ⟨⟨t, ht, hkind, hform⟩, requestNames_routeLines r, fun n => ?_, ?_⟩
  · rw [hnames, count_declared]
  · rw [hnames, List.nodup_append]
    refine ⟨fun h => ⟨h.1, h.2.1⟩, fun h => ⟨h.1, h.2, ?_⟩⟩
    rintro n hn m hm rfl
    simp [hn] at hm

/-- A name in both lists is declared once. -/
theorem routeLines_names_update :
    ∃ s r, (Document.read none "server Api\n  put update /users/:id ?id ?name\n    return id").script.server = some s ∧
      r ∈ s.routes ∧ Form.pathParams r.path = ["id"] ∧ r.smartParams = ["id", "name"] ∧
      (requestNames (parameterLines r)).count ("id" : Text) = 1 ∧ (requestNames (parameterLines r)).Nodup := by
  have hroute : ∃ s ∈ (Document.read none
      "server Api\n  put update /users/:id ?id ?name\n    return id").script.server,
      ∃ r ∈ s.routes, Form.pathParams r.path = ["id"] ∧ r.smartParams = ["id", "name"] := by decide +kernel
  obtain ⟨s, hs, r, hr, hpath, hsmart⟩ := hroute
  obtain ⟨-, -, hcount, hnodup⟩ := routeLines_names none _ s r hs hr
  rw [hpath, hsmart] at hnodup
  refine ⟨s, r, hs, hr, hpath, hsmart, ?_, hnodup.mpr (by decide)⟩
  rw [hcount, hpath]
  rfl

/-- A name that is twice in the path is declared twice. -/
theorem path_name_declared_twice :
    ∃ s ∈ (Document.read none "server A\n  get h /:id/:id").script.server, ∃ r ∈ s.routes,
      requestNames (routeLines r) = ["id", "id"] ∧ ¬ (requestNames (routeLines r)).Nodup := by
  decide +kernel

end Trellis.ServerModule
