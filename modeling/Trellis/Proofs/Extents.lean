import Mathlib.Data.List.TakeWhile
import Trellis.Proofs.Provenance

/-!
# How far captures and servers reach

The body of a declaration is the run of deeper lines directly behind its line, and these lines add nothing else.  A
server holds what the lines of its block add and nothing else holds it; of several servers only the first is kept.
`read_extents` states both.
-/

namespace Trellis.Document

variable {filename : Option Text} {r : Reading} {t u : LineToken} {ts us after : List LineToken} {k : Contribution}

/-! ### Lines in bodies -/

/-- The lines that a capture takes contribute nothing. -/
theorem not_contributes_of_run (hts : ts.Pairwise fun a b => a.line < b.line) {head : CaptureHead}
    (hk : k ∈ contributions filename {} ts) (ha : k.addition = .capture head) (hu : u ∈ k.run) :
    ∀ j ∈ contributions filename {} ts, j.line.line ≠ u.line := by
  intro j hj hline
  obtain ⟨before, hsplit, hadd⟩ := mem_contributions_iff.mp hk
  have htext : ts = (before ++ [k.line]) ++ k.run ++ k.behind.dropWhile (k.line.indent < ·.indent) := by
    simp [hsplit, Contribution.run]
  rw [htext] at hts hj
  obtain ⟨j', hj', -⟩ := (contributions_within hts).mp ⟨hj, u, hu, hline⟩
  have hreads := Reading.reads_step filename (before.foldl (Reading.step filename) {}) k.line
  rw [hadd, ha] at hreads
  -- the line opens a capture, and the lines of its run are deeper
  have hcap : ((before ++ [k.line]).foldl (Reading.step filename) {}).capture =
      some { indent := k.line.indent, head := head, location := Reading.locate filename k.line } := by
    rw [List.foldl_append]
    cases hreads with
    | added ht _ hfit hs => exact (Reading.Reads.added ht ‹_› hfit hs).capture ht
  have hdeeper : ∀ v ∈ k.run, k.line.indent < v.indent := by
    intro v hv
    have hlt := List.mem_takeWhile_imp (l := k.behind) hv
    exact of_decide_eq_true hlt
  rw [(foldl_of_taken hcap hdeeper).2] at hj'
  cases hj'

/-! ### Lines in the block of a server -/

/-- A run that ends where a text ends does so in a longer text. -/
theorem run_extend (h : ∀ v ∈ us.head?, ¬ k.line.indent < v.indent) : (k.extend us).run = k.run := by
  have hstop : us.takeWhile (k.line.indent < ·.indent) = [] := by
    cases us with
    | nil => rfl
    | cons v us => exact List.takeWhile_cons_of_neg (by simpa using h v rfl)
  show (k.behind ++ us).takeWhile (k.line.indent < ·.indent) = k.behind.takeWhile (k.line.indent < ·.indent)
  rw [List.takeWhile_append, hstop, List.append_nil]
  split
  · rename_i hlen
    exact ((List.takeWhile_prefix _).eq_of_length hlen).symm
  · rfl

theorem block_append_beyond (t : LineToken) (after : List LineToken) : block t after ++ beyond t after = after :=
  List.takeWhile_append_dropWhile

theorem head?_beyond {v : LineToken} (h : v ∈ (beyond t after).head?) : ¬ t.indent < v.indent := by
  have hstop : inside t.indent v = false := by
    have := List.head?_dropWhile_not (inside t.indent) after
    unfold beyond at h
    rw [Option.mem_def.mp h] at this
    simpa using this
  simp only [inside, Bool.or_eq_false_iff, decide_eq_false_iff_not] at hstop
  exact hstop.2

/-- The server of a line is open, and nothing collects lines, where its block starts. -/
theorem run_server {before : List LineToken} {name : Text} {port : Option Text}
    (hadd : (Reading.run filename before).addition? filename t = some (.server name port)) :
    (Reading.run filename (before ++ [t])).openServer.map (·.indent) = some t.indent ∧
      (Reading.run filename (before ++ [t])).capture = none := by
  have hreads := Reading.reads_step filename (Reading.run filename before) t
  rw [hadd, ← Reading.run_concat] at hreads
  obtain ⟨hopen, hcap⟩ := hreads.opens_server
  rw [hopen]
  exact ⟨rfl, hcap⟩

theorem inside_of_mem_block (h : u ∈ block t after) : inside t.indent u = true :=
  List.mem_takeWhile_imp (l := after) h

/-- A line of the block has the same run whether or not the text goes on. -/
theorem body_of_block {before : List LineToken} {name : Text} {port : Option Text}
    (hadd : (Reading.run filename before).addition? filename t = some (.server name port))
    (hk : k ∈ contributions filename (Reading.run filename (before ++ [t])) (block t after)) :
    (k.extend (beyond t after)).body = k.body := by
  have hlt := (forServer_of_inside (run_server hadd).1 (fun u hu => inside_of_mem_block hu) k hk).2
  have hrun : (k.extend (beyond t after)).run = k.run := by
    refine run_extend fun v hv => ?_
    have := head?_beyond hv
    omega
  exact congrArg (List.map LineToken.toBodyLine) hrun

section Block

variable {before : List LineToken} {name : Text} {port : Option Text}
  (hts : (before ++ t :: after).Pairwise fun a b => a.line < b.line)
  (hadd : (Reading.run filename before).addition? filename t = some (.server name port))

theorem split_block (before : List LineToken) (t : LineToken) (after : List LineToken) :
    before ++ t :: after = (before ++ [t]) ++ block t after ++ beyond t after := by
  rw [List.append_assoc, block_append_beyond]
  simp

include hts

/-- What the lines of the block contribute, read on their own or with the whole text. -/
theorem contributions_block :
    (k ∈ contributions filename {} (before ++ t :: after) ∧ ∃ u ∈ block t after, k.line.line = u.line) ↔
      ∃ k' ∈ contributions filename (Reading.run filename (before ++ [t])) (block t after),
        k = k'.extend (beyond t after) := by
  rw [split_block] at hts ⊢
  exact contributions_within hts

/-- The state variables that the block adds. -/
theorem mem_serverStates_block {x : StateDecl} :
    x ∈ serverStates filename (Reading.run filename (before ++ [t])) (block t after) ↔
      ∃ k ∈ contributions filename {} (before ++ t :: after), k.line ∈ block t after ∧
        k.addition = .serverState x.typeName x.name x.value ∧ x.location = Reading.locate filename k.line := by
  unfold serverStates
  rw [List.mem_filterMap]
  constructor
  · rintro ⟨k, hk, hx⟩
    have hmem := (contributions_block hts).mpr ⟨k, hk, rfl⟩
    have hline : k.line ∈ block t after := line_mem hk
    exact ⟨k.extend (beyond t after), hmem.1, hline, Addition.serverState?_eq_some_iff.mp hx⟩
  · rintro ⟨k, hk, hline, hx⟩
    obtain ⟨k', hk', rfl⟩ := (contributions_block hts).mp ⟨hk, k.line, hline, rfl⟩
    exact ⟨k', hk', Addition.serverState?_eq_some_iff.mpr hx⟩

include hadd

/-- The lines of the block that add something add what servers hold. -/
theorem forServer_of_block (hk : k ∈ contributions filename {} (before ++ t :: after))
    (hu : ∃ u ∈ block t after, k.line.line = u.line) : k.addition.forServer = true := by
  obtain ⟨k', hk', rfl⟩ := (contributions_block hts).mp ⟨hk, hu⟩
  exact (forServer_of_inside (run_server hadd).1 (fun u hu => inside_of_mem_block hu) k' hk').1

/-- The routes that the block adds. -/
theorem mem_routes_block {b : Declared} :
    b ∈ (routes filename (Reading.run filename (before ++ [t])) (block t after)).map .ofRoute ↔
      ∃ k ∈ contributions filename {} (before ++ t :: after), k.line ∈ block t after ∧
        k.addition = .capture b.head ∧ b.location = Reading.locate filename k.line ∧ b.body = k.body := by
  have hcap := (run_server hadd).2
  constructor
  · -- a route comes from a capture in the block, and this from a line of it
    intro hb
    obtain ⟨ρ, hρ, rfl⟩ := List.mem_map.mp hb
    obtain ⟨c, hc, hρ⟩ := List.mem_filterMap.mp hρ
    obtain ⟨k, hk, ha, hloc, hbody⟩ := mem_captures hcap hc
    have hmem := (contributions_block hts).mpr ⟨k, hk, rfl⟩
    have hline : k.line ∈ block t after := line_mem hk
    rw [(c.declared_eq filename).2.2.2 ρ hρ]
    exact ⟨k.extend (beyond t after), hmem.1, hline, ha, hloc, hbody.trans (body_of_block hadd hk).symm⟩
  · -- what contributes in the block is for the server, and a capture there is a route
    rintro ⟨k, hk, hline, ha, hloc, hbody⟩
    have hfor := forServer_of_block hts hadd hk ⟨k.line, hline, rfl⟩
    obtain ⟨k', hk', rfl⟩ := (contributions_block hts).mp ⟨hk, k.line, hline, rfl⟩
    obtain ⟨head, location, body⟩ := b
    rw [ha] at hfor
    cases head with
    | route verb name path smart =>
      refine List.mem_map.mpr ⟨_, List.mem_filterMap.mpr ⟨_, mem_captures_of_capture hk' ha, rfl⟩, ?_⟩
      obtain rfl : location = Reading.locate filename k'.line := hloc
      obtain rfl : body = k'.body := hbody.trans (body_of_block hadd hk')
      rfl
    | _ => cases hfor

end Block

/-! ### Documents -/

theorem line_eq_of_locate {l : Location} (h : l = Reading.locate filename t) (hl : l.line = u.line) :
    t.line = u.line := by
  rw [h] at hl
  exact Int.ofNat.inj hl

/-- Every declaration with a body comes from a line that opens a capture. -/
theorem mem_declared {b : Declared} (hts : ts.Pairwise fun a b => a.line < b.line)
    (hb : b ∈ (ofTokens filename ts).declared) :
    ∃ k ∈ contributions filename {} ts,
      k.addition = .capture b.head ∧ b.location = Reading.locate filename k.line ∧ b.body = k.body := by
  obtain hb | hb := List.mem_append.mp hb
  · obtain ⟨⟨c, hc, rfl⟩, -⟩ := outerDeclared_ofTokens hb
    exact mem_captures rfl hc
  · obtain ⟨ρ, hmem, rfl⟩ := List.mem_map.mp hb
    obtain ⟨s, hs, hρ⟩ := List.mem_flatMap.mp hmem
    obtain ⟨before, t, after, rfl, hat⟩ := server_ofTokens (Option.mem_toList.mp hs)
    rw [hat.routes] at hρ
    obtain ⟨k, hk, -, hk'⟩ := (mem_routes_block hts hat.accepted).mp (List.mem_map_of_mem hρ)
    exact ⟨k, hk, hk'⟩

section Kept

variable {before : List LineToken} {s : Server} (hts : (before ++ t :: after).Pairwise fun a b => a.line < b.line)
  (hat : ServerAt filename s before t after)

include hts hat

/-- What the server of a document holds comes from the block of its line. -/
theorem mem_serverPlaces {l : Location} (hs : (ofTokens filename (before ++ t :: after)).script.server = some s)
    (hl : l ∈ (ofTokens filename (before ++ t :: after)).serverPlaces) :
    ∃ k ∈ contributions filename {} (before ++ t :: after),
      k.line ∈ block t after ∧ l = Reading.locate filename k.line := by
  unfold serverPlaces at hl
  rw [hs, Option.toList_some, List.flatMap_cons, List.flatMap_nil, List.append_nil, hat.state, hat.routes,
    List.mem_append] at hl
  obtain hl | hl := hl
  · obtain ⟨x, hx, rfl⟩ := List.mem_map.mp hl
    obtain ⟨k, hk, hline, -, hloc⟩ := (mem_serverStates_block hts).mp hx
    exact ⟨k, hk, hline, hloc⟩
  · obtain ⟨ρ, hρ, rfl⟩ := List.mem_map.mp hl
    obtain ⟨k, hk, hline, -, hloc, -⟩ := (mem_routes_block hts hat.accepted).mp (List.mem_map_of_mem hρ)
    exact ⟨k, hk, hline, hloc⟩

/-- Every other accepted server line is behind the block. -/
theorem block_before_later (hk : k ∈ contributions filename {} (before ++ t :: after))
    (hserver : k.addition.isServer = true) (hne : k.line ≠ t) : ∀ v ∈ block t after, v.line < k.line.line := by
  intro v hv
  have hmem := line_mem hk
  rw [split_block, List.mem_append, List.mem_append, List.mem_append, List.mem_singleton] at hmem
  obtain ((hbefore | heq) | hblock) | hbeyond := hmem
  · have hwhole : ([] ++ before ++ t :: after).Pairwise fun (a b : LineToken) => a.line < b.line := hts
    obtain ⟨k', hk', rfl⟩ := (contributions_within hwhole).mp ⟨hk, k.line, hbefore, rfl⟩
    have hno : k'.addition.isServer = false := hat.first k' hk'
    exact absurd (hserver.symm.trans hno) (by simp)
  · exact absurd heq hne
  · have hfor := forServer_of_block hts hat.accepted hk ⟨k.line, hblock, rfl⟩
    exact absurd (hserver.symm.trans (Addition.isServer_of_forServer hfor)) (by simp)
  · rw [split_block] at hts
    exact (List.pairwise_append.mp hts).2.2 v (List.mem_append_right _ hv) k.line hbeyond

/-- The state of the server is not state of the document. -/
theorem state_apart {x y : StateDecl} (hx : x ∈ s.state)
    (hy : y ∈ (ofTokens filename (before ++ t :: after)).script.state) : y.location ≠ x.location := by
  intro heq
  rw [hat.state] at hx
  obtain ⟨k, hk, -, ha, hkl⟩ := (mem_serverStates_block hts).mp hx
  have hplace : y.location ∈ (ofTokens filename (before ++ t :: after)).outerPlaces := by
    simp only [outerPlaces, List.mem_append]
    exact .inl (.inl (.inl (.inr (List.mem_map_of_mem hy))))
  obtain ⟨j, hj, hfor, hjl⟩ := outerPlaces_ofTokens hplace
  have hline : j.line.line = k.line.line := line_eq_of_locate hjl (by rw [heq, hkl]; rfl)
  rw [eq_of_line_eq hts hj hk hline, ha] at hfor
  cases hfor

/-- Nothing in the document comes from the block of a later server line. -/
theorem later_block_silent {l : Location} (hs : (ofTokens filename (before ++ t :: after)).script.server = some s)
    (hk : k ∈ contributions filename {} (before ++ t :: after)) (hserver : k.addition.isServer = true)
    (hne : k.line ≠ t) (hu : u ∈ block k.line k.behind)
    (hl : l ∈ (ofTokens filename (before ++ t :: after)).places) : l.line ≠ u.line := by
  intro heq
  obtain ⟨before', hsplit, hadd⟩ := mem_contributions_iff.mp hk
  obtain ⟨name, port, ha⟩ := Addition.eq_server_of_isServer hserver
  rw [ha] at hadd
  have hts' := hsplit ▸ hts
  obtain hl | hl := List.mem_append.mp hl
  · obtain ⟨j, hj, hfor, hjl⟩ := outerPlaces_ofTokens hl
    have hin := forServer_of_block hts' hadd (hsplit ▸ hj) ⟨u, hu, line_eq_of_locate hjl heq⟩
    exact absurd (hin.symm.trans hfor) (by simp)
  · obtain ⟨j, -, hblock, hjl⟩ := mem_serverPlaces hts hat hs hl
    have hbefore : j.line.line < k.line.line := block_before_later hts hat hk hserver hne j.line hblock
    have hafter : k.line.line < u.line := by
      have hu' := (List.takeWhile_sublist _).mem hu
      exact (List.pairwise_cons.mp (List.pairwise_append.mp hts').2.1).1 u hu'
    have := line_eq_of_locate hjl heq
    omega

end Kept

/-- Everything in a document comes from a line that adds something. -/
theorem mem_places {l : Location} (hts : ts.Pairwise fun a b => a.line < b.line)
    (hl : l ∈ (ofTokens filename ts).places) :
    ∃ k ∈ contributions filename {} ts, l = Reading.locate filename k.line := by
  obtain hl | hl := List.mem_append.mp hl
  · obtain ⟨k, hk, -, hloc⟩ := outerPlaces_ofTokens hl
    exact ⟨k, hk, hloc⟩
  · obtain ⟨s, hs, -⟩ := List.mem_flatMap.mp hl
    have hs := Option.mem_toList.mp hs
    obtain ⟨before, t, after, rfl, hat⟩ := server_ofTokens hs
    obtain ⟨k, hk, -, hloc⟩ := mem_serverPlaces hts hat hs hl
    exact ⟨k, hk, hloc⟩

/-! ### Extents -/

/-- The declaration `b` of a document is opened by the line `t`, and its body is the run of deeper lines behind it;
these lines add nothing to the document. -/
structure BodyExtent (filename : Option Text) (d : Document) (b : Declared) (before : List LineToken) (t : LineToken)
    (after : List LineToken) : Prop where
  accepted : (Reading.run filename before).addition? filename t = some (.capture b.head)
  location : b.location = Reading.locate filename t
  body : b.body = (after.takeWhile (t.indent < ·.indent)).map LineToken.toBodyLine
  silent : ∀ u ∈ after.takeWhile (t.indent < ·.indent),
    (∀ k ∈ contributions filename {} (before ++ t :: after), k.line ≠ u) ∧ ∀ l ∈ d.places, l.line ≠ u.line

/-- The server `s` of a document is opened by the line `t`, the first accepted server line, and holds just the state
variables and the routes of the lines in its block.  None of this state is state of the document, and nothing in the
document comes from the block of a later server line. -/
structure ServerExtent (filename : Option Text) (d : Document) (s : Server) (before : List LineToken) (t : LineToken)
    (after : List LineToken) : Prop where
  accepted : (Reading.run filename before).addition? filename t = some (.server s.name s.port)
  location : s.location = Reading.locate filename t
  first : ∀ k ∈ contributions filename {} before, k.addition.isServer = false
  state : ∀ x, x ∈ s.state ↔ ∃ k ∈ contributions filename {} (before ++ t :: after),
    k.line ∈ block t after ∧ k.addition = .serverState x.typeName x.name x.value ∧
      x.location = Reading.locate filename k.line
  routes : ∀ b : Declared, b ∈ s.routes.map .ofRoute ↔ ∃ k ∈ contributions filename {} (before ++ t :: after),
    k.line ∈ block t after ∧ k.addition = .capture b.head ∧ b.location = Reading.locate filename k.line ∧
      b.body = k.body
  apart : ∀ x ∈ s.state, ∀ y ∈ d.script.state, y.location ≠ x.location
  later : ∀ k ∈ contributions filename {} (before ++ t :: after), k.addition.isServer = true → k.line ≠ t →
    ∀ u ∈ block k.line k.behind, ∀ l ∈ d.places, l.line ≠ u.line

/-- **Extents are exact.**  Every declaration with a body has the extent of its line, and the server has the extent of
the first accepted server line, if there is one. -/
theorem read_extents (filename : Option Text) (source : Text) :
    (∀ b ∈ (read filename source).declared, ∃ before t after,
      LineToken.tokenize source = before ++ t :: after ∧ BodyExtent filename (read filename source) b before t after) ∧
    ((read filename source).script.server = none →
      ∀ k ∈ contributions filename {} (LineToken.tokenize source), k.addition.isServer = false) ∧
    ∀ s, (read filename source).script.server = some s → ∃ before t after,
      LineToken.tokenize source = before ++ t :: after ∧
        ServerExtent filename (read filename source) s before t after := by
  have hlines := LineToken.pairwise_tokenize source
  refine ⟨fun b hb => ?_, isServer_of_no_server, fun s hs => ?_⟩
  · -- a declaration with a body comes from a capture, and the lines of its run contribute nothing else
    obtain ⟨k, hk, ha, hloc, hbody⟩ := mem_declared hlines hb
    have hsilent := fun u hu => not_contributes_of_run (u := u) hlines hk ha hu
    obtain ⟨before, hsplit, hadd⟩ := mem_contributions_iff.mp hk
    refine ⟨before, k.line, k.behind, hsplit, ?_⟩
    exact {
      accepted := ha ▸ hadd
      location := hloc
      body := hbody
      silent := by
        intro u hu
        rw [← hsplit]
        refine ⟨fun j hj heq => hsilent u hu j hj (congrArg LineToken.line heq), fun l hl heq => ?_⟩
        obtain ⟨j, hj, hjl⟩ := mem_places hlines hl
        exact hsilent u hu j hj (line_eq_of_locate hjl heq) }
  · obtain ⟨before, t, after, hts, hat⟩ := server_ofTokens hs
    refine ⟨before, t, after, hts, ?_⟩
    unfold read at hs ⊢
    rw [hts] at hlines hs ⊢
    exact {
      accepted := hat.accepted
      location := hat.location
      first := hat.first
      state := fun x => hat.state ▸ mem_serverStates_block hlines
      routes := fun b => hat.routes ▸ mem_routes_block hlines hat.accepted
      apart := fun x hx y hy => state_apart hlines hat hx hy
      later := fun k hk hserver hne u hu l hl => later_block_silent hlines hat hs hk hserver hne hu hl }

end Trellis.Document
