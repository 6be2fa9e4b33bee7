import Trellis.Proofs.Captures

/-!
# What a server holds

The block of a server line is what follows it up to the first line that is neither a comment nor deeper.  Inside its
block the open server collects the state variables and the routes of the lines (`serverWith_step`); the line behind the
block closes it.  So the server of a reading is the first one that was opened, with what the lines of its block
contribute (`server_foldl`).
-/

namespace Trellis.Document

/-- The line does not end a server whose own line is indented by `indent`. -/
def inside (indent : Nat) (u : LineToken) : Bool := u.kind = .comment || indent < u.indent

/-- The state variables that lines add to the open server. -/
def serverStates (filename : Option Text) (r : Reading) (ts : List LineToken) : List StateDecl :=
  (contributions filename r ts).filterMap fun k => k.addition.serverState? (Reading.locate filename k.line)

def routes (filename : Option Text) (r : Reading) (ts : List LineToken) : List Route :=
  (captures filename r ts).filterMap (·.route? filename)

namespace Reading

/-- The open server with what the lines of a text that are inside of it add. -/
def serverWith (filename : Option Text) (r : Reading) (ts : List LineToken) : Option OpenServer :=
  r.openServer.map fun o =>
    o.extend (serverStates filename r (ts.takeWhile (inside o.indent)))
      (routes filename r (ts.takeWhile (inside o.indent)))

/-- The open capture is inside the open server. -/
def Guarded (r : Reading) : Prop := ∀ c ∈ r.capture, ∀ o ∈ r.openServer, o.indent < c.indent

end Reading

/-- The first server that a text opens. -/
def firstServer (filename : Option Text) (r : Reading) : List LineToken → Option OpenServer
  | [] => none
  | t :: ts =>
    if ((r.addition? filename t).bind (Addition.server? filename t)).isSome then
      (r.step filename t).serverWith filename ts
    else firstServer filename (r.step filename t) ts

variable {filename : Option Text} {r s : Reading} {t : LineToken} {ts us : List LineToken} {o : OpenServer}
  {x : Option Addition} {n : Nat}

/-! ### Lines, one by one -/

theorem serverStates_cons (r : Reading) (t : LineToken) (ts : List LineToken) :
    serverStates filename r (t :: ts) =
      ((r.addition? filename t).bind (Addition.serverState? (Reading.locate filename t))).toList ++
        serverStates filename (r.step filename t) ts := by
  unfold serverStates
  rw [contributions, List.filterMap_append, filterMap_toList]
  cases r.addition? filename t <;> rfl

theorem routes_of_taken (h : r.takes t = true) (ts : List LineToken) :
    routes filename r (t :: ts) = routes filename (r.step filename t) ts := by
  unfold routes
  rw [captures_of_taken h]

theorem routes_of_not_taken (h : r.takes t = false) (ts : List LineToken) :
    routes filename r (t :: ts) =
      (r.capture.bind (·.route? filename)).toList ++ routes filename (r.step filename t) ts := by
  unfold routes
  rw [captures_of_not_taken h, List.filterMap_append, filterMap_toList]

/-- Whether an addition belongs inside a server. -/
def Addition.forServer : Addition → Bool
  | .serverState _ _ _ | .capture (.route _ _ _ _) => true
  | _ => false

/-- Whether an addition opens a server. -/
def Addition.isServer : Addition → Bool
  | .server _ _ => true
  | _ => false

theorem Addition.server?_eq_none_iff {a : Addition} : a.server? filename t = none ↔ a.isServer = false := by
  cases a <;> simp [Addition.server?, Addition.isServer]

theorem Addition.eq_server_of_isServer {a : Addition} (h : a.isServer = true) : ∃ name port, a = .server name port := by
  cases a with
  | server name port => exact ⟨name, port, rfl⟩
  | _ => cases h

theorem Addition.forServer_of_fits {a : Addition} {c : Context} (h : a.Fits c t) : a.forServer = c.inServer := by
  cases a with
  | capture head => cases head <;> exact h.symm
  | node head => exact h.1.symm
  | property key value => exact h.1.symm
  | tag name => exact h.1.symm
  | loopKey expression => exact h.1.symm
  | _ => exact h.symm

theorem Addition.isServer_of_forServer {a : Addition} (h : a.forServer = true) : a.isServer = false := by
  cases a with
  | server name port => cases h
  | _ => rfl

/-! ### Closing a capture and settling -/

theorem closeCapture_openServer (filename : Option Text) (r : Reading) :
    (r.closeCapture filename).openServer =
      r.openServer.map (·.extend [] (r.capture.bind (·.route? filename)).toList) := by
  have hid : r.openServer = r.openServer.map (·.extend [] []) := by simp
  unfold Reading.closeCapture
  cases hc : r.capture with
  | none => exact hid
  | some c =>
    unfold Reading.declare Capture.route?
    cases hh : c.head with
    | route verb name path smart =>
      simp only [hh, Option.bind_some]
      cases r.openServer <;> simp [OpenServer.extend]
    | _ => simp [hh]

theorem closeCapture_server (filename : Option Text) (r : Reading) : (r.closeCapture filename).server = r.server := by
  rw [Reading.closeCapture_frame]

theorem closeServer_server (r : Reading) : r.closeServer.server = r.server.or (r.openServer.map (·.server)) := by
  unfold Reading.closeServer
  cases r.openServer with
  | none => exact (Option.or_none).symm
  | some o => cases r.server <;> rfl

/-- Settling inside the open server closes the capture only. -/
theorem settle_inside (filename : Option Text) (ho : r.openServer = some o) (hlt : o.indent < t.indent) :
    r.settle filename t = r.closeCapture filename := by
  have hopen := closeCapture_openServer filename r
  rw [ho] at hopen
  have hh : (r.closeCapture filename).holds t = true := by
    unfold Reading.holds
    rw [hopen]
    exact decide_eq_true hlt
  simp only [Reading.settle]
  rw [if_pos hh]

/-- Settling on a line that is not inside the open server closes it. -/
theorem settle_outside (filename : Option Text) (hout : ∀ o ∈ r.openServer, ¬ o.indent < t.indent) :
    (r.settle filename t).openServer = none ∧
      (r.settle filename t).server = r.server.or ((r.closeCapture filename).openServer.map (·.server)) := by
  have hh : ¬ (r.closeCapture filename).holds t = true := by
    have hopen := closeCapture_openServer filename r
    intro hh
    unfold Reading.holds at hh
    rw [hopen] at hh
    cases ho : r.openServer with
    | none => simp [ho] at hh
    | some o =>
      rw [ho] at hh
      exact hout o ho (of_decide_eq_true hh)
  simp only [Reading.settle]
  rw [if_neg hh]
  refine ⟨Reading.closeServer_openServer, ?_⟩
  rw [← closeCapture_server filename r]
  exact closeServer_server _

namespace Reading.Reads

/-- A line leaves the kept server as settling leaves it. -/
theorem server (h : Reads filename r t x s) (ht : r.takes t = false) (hk : t.kind ≠ .comment) :
    s.server = (r.settle filename t).server := by
  cases h with
  | taken ht' => exact absurd (ht.symm.trans ht') (by simp)
  | comment _ hk' => exact absurd hk' hk
  | dropped _ _ p => rfl
  | added _ _ hfit ha =>
    rw [(Addition.addTo?_effect ha).frame]
    rfl

/-- A line that is not taken gives the open server the route of the capture that it ends, and its own state. -/
theorem openServer_inside (h : Reads filename r t x s) (ht : r.takes t = false) (ho : r.openServer = some o)
    (hin : inside o.indent t = true) :
    s.openServer = some (o.extend (x.bind (Addition.serverState? (locate filename t))).toList
      (r.capture.bind (·.route? filename)).toList) ∧ s.server = r.server := by
  have hclose := closeCapture_openServer filename r
  rw [ho, Option.map_some] at hclose
  have hdeeper : t.kind ≠ .comment → o.indent < t.indent := by
    intro hk
    simpa [inside, hk] using hin
  cases h with
  | taken ht' => exact absurd (ht.symm.trans ht') (by simp)
  | comment _ hk => exact ⟨hclose, closeCapture_server filename r⟩
  | dropped _ hk p =>
    have hsettle := settle_inside filename ho (hdeeper hk)
    exact ⟨(congrArg openServer hsettle).trans hclose,
      (congrArg Reading.server hsettle).trans (closeCapture_server filename r)⟩
  | @added a _ _ hk hfit ha =>
    have hsettle := settle_inside filename ho (hdeeper hk)
    rw [hsettle] at hfit ha
    -- with a server open, what is added is for the server
    have hfor : a.forServer = true := by
      rw [Addition.forServer_of_fits hfit]
      show (r.closeCapture filename).openServer.isSome = true
      rw [hclose]
      rfl
    have hparts := Addition.addTo?_parts (r := (r.closeCapture filename).warn filename t) closeCapture_capture ha
    have hopen := hparts.openServer
    rw [Addition.server?_eq_none_iff.mpr (Addition.isServer_of_forServer hfor), Option.none_or,
      Reading.warn_openServer, hclose] at hopen
    have hserver : s.server = r.server := by
      rw [(Addition.addTo?_effect ha).frame]
      exact closeCapture_server filename r
    refine ⟨?_, hserver⟩
    rw [hopen]
    simp

/-- A line that is not inside the open server leaves open only what it opens itself. -/
theorem openServer_outside (h : Reads filename r t x s) (ht : r.takes t = false) (hk : t.kind ≠ .comment)
    (hout : ∀ o ∈ r.openServer, ¬ o.indent < t.indent) : s.openServer = x.bind (Addition.server? filename t) := by
  have hsettle := (settle_outside filename hout).1
  cases h with
  | taken ht' => exact absurd (ht.symm.trans ht') (by simp)
  | comment _ hk' => exact absurd hk' hk
  | dropped _ _ p => exact hsettle
  | added _ _ hfit ha =>
    have hparts := Addition.addTo?_parts (r := (r.settle filename t).warn filename t) settle_capture ha
    have hopen := hparts.openServer
    rw [warn_openServer, hsettle, Option.map_none, Option.or_none] at hopen
    exact hopen

/-- While no server is open, a line may open one, and none is closed. -/
theorem of_closed (h : Reads filename r t x s) (ho : r.openServer = none) :
    s.openServer = x.bind (Addition.server? filename t) ∧ s.server = r.server := by
  have hout : ∀ o ∈ r.openServer, ¬ o.indent < t.indent := by simp [ho]
  have hclose : (r.closeCapture filename).openServer = none := by
    rw [closeCapture_openServer, ho]
    rfl
  have hline : ∀ {x s}, Reads filename r t x s → r.takes t = false → t.kind ≠ .comment →
      s.openServer = x.bind (Addition.server? filename t) ∧ s.server = r.server := by
    intro x s h ht hk
    refine ⟨h.openServer_outside ht hk hout, ?_⟩
    rw [h.server ht hk, (settle_outside filename hout).2, hclose, Option.map_none, Option.or_none]
  cases h with
  | taken ht => exact ⟨ho, rfl⟩
  | comment ht hk => exact ⟨hclose, closeCapture_server filename r⟩
  | dropped ht hk p => exact hline (.dropped ht hk p) ht hk
  | added ht hk hfit ha => exact hline (.added ht hk hfit ha) ht hk

end Reading.Reads

/-! ### The open capture is inside the open server -/

namespace Reading

theorem guarded_nil : ({} : Reading).Guarded := by
  intro c hc
  cases hc

/-- After settling, an open server is one that the line is inside of. -/
theorem settle_indent (h : (r.settle filename t).openServer = some o) : o.indent < t.indent := by
  have hh : (r.closeCapture filename).holds t = true := by
    rw [← settle_openServer, h]
    rfl
  simp only [settle] at h
  rw [if_pos hh] at h
  unfold holds at hh
  rw [h] at hh
  exact of_decide_eq_true hh

theorem guarded_step (filename : Option Text) (t : LineToken) (h : r.Guarded) : (r.step filename t).Guarded := by
  cases ht : r.takes t with
  | true =>
    rw [step_takes filename ht]
    intro c hc o ho
    obtain ⟨c', hc', rfl⟩ := Option.map_eq_some_iff.mp hc
    exact h c' hc' o ho
  | false =>
    have hreads := reads_step filename r t
    intro c hc o ho
    obtain ⟨a, hadd, ha⟩ := Option.bind_eq_some_iff.mp ((hreads.capture ht).symm.trans hc)
    rw [hadd] at hreads
    cases hreads with
    | added _ hk hfit hs =>
      have hopen := (Addition.addTo?_parts (r := (r.settle filename t).warn filename t) settle_capture hs).openServer
      cases a with
      | capture head =>
        -- a capture that is opened in a server is deeper than the server, as its line is
        cases ha
        rw [Option.mem_def.mp ho] at hopen
        obtain ⟨o', ho', rfl⟩ := Option.map_eq_some_iff.mp hopen.symm
        have hlt : o'.indent < t.indent := settle_indent ho'
        exact hlt
      | _ => cases ha

end Reading

/-! ### The server of a reading -/

/-- **Inside its block** the open server collects the same from a line and the lines behind it as from the lines
behind it once the line is read. -/
theorem serverWith_step (filename : Option Text) (ho : r.openServer = some o) (hin : inside o.indent t = true)
    (ts : List LineToken) :
    (r.step filename t).serverWith filename ts = r.serverWith filename (t :: ts) ∧
      (r.step filename t).server = r.server := by
  cases ht : r.takes t with
  | true =>
    have hopen : (r.step filename t).openServer = some o := by rw [Reading.step_takes filename ht]; exact ho
    have hserver : (r.step filename t).server = r.server := by rw [Reading.step_takes filename ht]; rfl
    refine ⟨?_, hserver⟩
    unfold Reading.serverWith
    rw [hopen, ho, Option.map_some, Option.map_some, List.takeWhile_cons_of_pos hin, serverStates_cons,
      routes_of_taken ht, Reading.addition?_of_takes ht]
    rfl
  | false =>
    obtain ⟨hopen, hserver⟩ := (Reading.reads_step filename r t).openServer_inside ht ho hin
    refine ⟨?_, hserver⟩
    unfold Reading.serverWith
    rw [hopen, ho, Option.map_some, Option.map_some, List.takeWhile_cons_of_pos hin, serverStates_cons,
      routes_of_not_taken ht, OpenServer.extend_extend]
    rfl

/-- The server as it stands when the line behind its block is reached. -/
theorem serverWith_of_stop (h : ∀ o ∈ r.openServer, ts.takeWhile (inside o.indent) = []) :
    r.serverWith filename ts = (r.closeCapture filename).openServer := by
  rw [closeCapture_openServer]
  unfold Reading.serverWith
  cases ho : r.openServer with
  | none => rfl
  | some o =>
    have hroutes : routes filename r [] = (r.capture.bind (·.route? filename)).toList := by
      unfold routes
      rw [captures_nil, filterMap_toList]
    rw [Option.map_some, Option.map_some, h o ho, hroutes]
    rfl

/-- **The server of a reading**: the one that was kept; else the open one, with what its block adds; else the first
one that is opened. -/
theorem server_foldl (filename : Option Text) (ts : List LineToken) (h : r.Guarded) :
    ((ts.foldl (Reading.step filename) r).closeCapture filename).closeServer.server =
      r.server.or (((r.serverWith filename ts).or (firstServer filename r ts)).map (·.server)) := by
  induction ts generalizing r with
  | nil =>
    rw [serverWith_of_stop (by simp), closeServer_server, List.foldl_nil, closeCapture_server]
    simp [firstServer]
  | cons t ts ih =>
    rw [List.foldl_cons, ih (Reading.guarded_step filename t h)]
    cases ho : r.openServer with
    | none =>
      obtain ⟨hopen, hserver⟩ := (Reading.reads_step filename r t).of_closed ho
      have hnone : r.serverWith filename (t :: ts) = none := by simp [Reading.serverWith, ho]
      rw [hserver, hnone, Option.none_or, firstServer]
      cases hx : (r.addition? filename t).bind (Addition.server? filename t) with
      | none => simp [Reading.serverWith, hopen, hx]
      | some o => simp [Reading.serverWith, hopen, hx]
    | some o =>
      cases hin : inside o.indent t with
      | true =>
        obtain ⟨hwith, hserver⟩ := serverWith_step filename ho hin ts
        rw [hwith, hserver]
        simp [Reading.serverWith, ho]
      | false =>
        obtain ⟨hk, hle⟩ : t.kind ≠ .comment ∧ ¬ o.indent < t.indent := by simpa [inside] using hin
        have hout : ∀ o ∈ r.openServer, ¬ o.indent < t.indent := by simpa [ho] using hle
        have ht : r.takes t = false := by
          cases hc : r.capture with
          | none => simp [Reading.takes, hc]
          | some c =>
            have hlt : o.indent < c.indent := h c hc o ho
            have : ¬ c.indent < t.indent := by omega
            simpa [Reading.takes, hc] using this
        have hserver := (Reading.reads_step filename r t).server ht hk
        have hwith : r.serverWith filename (t :: ts) = (r.closeCapture filename).openServer :=
          serverWith_of_stop (by simp [ho, hin])
        -- the server that the line closes is there, so nothing behind it counts
        rw [hserver, (settle_outside filename hout).2, hwith, closeCapture_openServer, ho, Option.or_assoc]
        rfl

/-! ### The first server -/

/-- A server line leaves its server open, and nothing collects lines. -/
theorem Reading.Reads.opens_server {name : Text} {port : Option Text}
    (h : Reads filename r t (some (.server name port)) s) :
    s.openServer = some ⟨t.indent, ⟨name, port, [], [], locate filename t⟩⟩ ∧ s.capture = none := by
  cases h with
  | added ht hk hfit ha =>
    have hparts := Addition.addTo?_parts (r := (r.settle filename t).warn filename t) settle_capture ha
    exact ⟨hparts.openServer, hparts.capture⟩

/-- The first server is the one of the first accepted server line. -/
theorem firstServer_eq_some (h : firstServer filename r ts = some o) :
    ∃ before t after name port, ts = before ++ t :: after ∧
      (before.foldl (Reading.step filename) r).addition? filename t = some (.server name port) ∧
      (∀ k ∈ contributions filename r before, k.addition.isServer = false) ∧
      ((before ++ [t]).foldl (Reading.step filename) r).serverWith filename after = some o := by
  induction ts generalizing r with
  | nil => cases h
  | cons t ts ih =>
    rw [firstServer] at h
    cases hx : (r.addition? filename t).bind (Addition.server? filename t) with
    | none =>
      -- the line is no server line, and the first one comes later
      rw [hx] at h
      obtain ⟨before, u, after, name, port, rfl, hadd, hnone, hwith⟩ := ih h
      refine ⟨t :: before, u, after, name, port, rfl, hadd, ?_, hwith⟩
      intro k hk
      rw [contributions, List.mem_append] at hk
      obtain hk | hk := hk
      · obtain ⟨a, ha, rfl⟩ := Option.map_eq_some_iff.mp (Option.mem_toList.mp hk)
        rw [ha] at hx
        exact Addition.server?_eq_none_iff.mp hx
      · exact hnone k hk
    | some s₀ =>
      -- the line itself opens the server
      rw [hx] at h
      obtain ⟨a, ha, hs⟩ := Option.bind_eq_some_iff.mp hx
      cases a with
      | server name port => exact ⟨[], t, ts, name, port, rfl, ha, by simp [contributions], h⟩
      | _ => cases hs

/-- Without a first server there is no accepted server line. -/
theorem firstServer_eq_none (h : firstServer filename r ts = none) :
    ∀ k ∈ contributions filename r ts, k.addition.isServer = false := by
  induction ts generalizing r with
  | nil => simp [contributions]
  | cons t ts ih =>
    intro k hk
    rw [firstServer] at h
    rw [contributions, List.mem_append] at hk
    cases hx : (r.addition? filename t).bind (Addition.server? filename t) with
    | none =>
      rw [hx] at h
      obtain hk | hk := hk
      · obtain ⟨a, ha, rfl⟩ := Option.map_eq_some_iff.mp (Option.mem_toList.mp hk)
        rw [ha] at hx
        exact Addition.server?_eq_none_iff.mp hx
      · exact ih h k hk
    | some s₀ =>
      -- a server line that is accepted would have been the first
      rw [hx] at h
      obtain ⟨a, ha, hs⟩ := Option.bind_eq_some_iff.mp hx
      cases a with
      | server name port =>
        have hreads := Reading.reads_step filename r t
        rw [ha] at hreads
        simp [Reading.serverWith, hreads.opens_server.1] at h
      | _ => cases hs

/-! ### The lines of a block -/

/-- Inside the open server every line that adds something adds a state variable or a route, and is deeper than the
server line. -/
theorem forServer_of_inside (hn : r.openServer.map (·.indent) = some n) (h : ∀ u ∈ us, inside n u = true) :
    ∀ k ∈ contributions filename r us, k.addition.forServer = true ∧ n < k.line.indent := by
  induction us generalizing r with
  | nil => simp [contributions]
  | cons u us ih =>
    obtain ⟨hu, hus⟩ := List.forall_mem_cons.mp h
    obtain ⟨o, ho, rfl⟩ := Option.map_eq_some_iff.mp hn
    have hreads := Reading.reads_step filename r u
    -- the server stays open
    have hstep : (r.step filename u).openServer.map (·.indent) = some o.indent := by
      cases ht : r.takes u with
      | true =>
        rw [Reading.step_takes filename ht]
        exact hn
      | false =>
        rw [(hreads.openServer_inside ht ho hu).1]
        rfl
    intro k hk
    rw [contributions, List.mem_append] at hk
    obtain hk | hk := hk
    · -- the first line adds something: it is no comment, so it is deeper
      obtain ⟨a, ha, rfl⟩ := Option.map_eq_some_iff.mp (Option.mem_toList.mp hk)
      rw [ha] at hreads
      cases hreads with
      | added ht hk hfit _ =>
        have hlt : o.indent < u.indent := by simpa [inside, hk] using hu
        refine ⟨(Addition.forServer_of_fits hfit).trans ?_, hlt⟩
        show (r.settle filename u).openServer.isSome = true
        rw [settle_inside filename ho hlt, closeCapture_openServer, ho]
        rfl
    · exact ih hstep hus k hk

end Trellis.Document
