import Trellis.Proofs.History

/-!
# What captures declare

A capture takes the lines behind its own line as long as they are deeper.  `captures` lists the captures that a text
opens, each with all the lines it will have taken, whether or not the text ends inside it; the functions, the services
and the mount hook of a reading are what these captures declare (`declared_foldl`).
-/

namespace Trellis.Document

namespace Contribution

/-- The lines directly behind the line that are deeper. -/
def run (k : Contribution) : List LineToken := k.behind.takeWhile (k.line.indent < ·.indent)

/-- The body that a capture of the line collects. -/
def body (k : Contribution) : List BodyLine := k.run.map LineToken.toBodyLine

/-- The capture of the line, with its body. -/
def capture? (filename : Option Text) (k : Contribution) : Option Capture :=
  (k.addition.capture? filename k.line).map fun c => { c with lines := k.body }

end Contribution

namespace Capture

/-- The function that a capture declares. -/
def function? (filename : Option Text) (c : Capture) : Option FunctionDecl :=
  match c.head with
  | .function name parameters =>
    some ⟨name, parameters, c.lines, Statement.readBody filename c.lines, c.location⟩
  | _ => none

def service? (filename : Option Text) (c : Capture) : Option ServiceDecl :=
  match c.head with
  | .service name baseUrl => some ⟨name, baseUrl, c.lines, (Reading.readMethods filename c.lines).1, c.location⟩
  | _ => none

def mount? (filename : Option Text) (c : Capture) : Option MountHook :=
  match c.head with
  | .mount => some ⟨c.lines, Statement.readBody filename c.lines, c.location⟩
  | _ => none

def route? (filename : Option Text) (c : Capture) : Option Route :=
  match c.head with
  | .route verb name path smart =>
    some ⟨verb, name, path, Form.pathParams path, smart, c.lines,
      (Statement.readRouteBody filename c.lines).1, c.location⟩
  | _ => none

end Capture

/-- The open capture with the lines that it will take of a text. -/
def Reading.pending (r : Reading) (ts : List LineToken) : Option Capture :=
  r.capture.map fun c =>
    { c with lines := c.lines ++ (ts.takeWhile (c.indent < ·.indent)).map LineToken.toBodyLine }

/-- The captures of a text that is read after `r`, each with all the lines that it will take. -/
def captures (filename : Option Text) (r : Reading) (ts : List LineToken) : List Capture :=
  (r.pending ts).toList ++ (contributions filename r ts).filterMap (·.capture? filename)

variable {filename : Option Text} {r : Reading} {t : LineToken} {ts us : List LineToken} {c : Capture}

/-! ### Lines that are taken -/

theorem Reading.takes_iff (hc : r.capture = some c) : r.takes t = true ↔ c.indent < t.indent := by
  unfold Reading.takes
  rw [hc]
  exact decide_eq_true_iff

/-- Deeper lines go to the open capture and contribute nothing. -/
theorem foldl_of_taken (hc : r.capture = some c) (h : ∀ u ∈ us, c.indent < u.indent) :
    us.foldl (Reading.step filename) r =
        { r with capture := some { c with lines := c.lines ++ us.map LineToken.toBodyLine } } ∧
      contributions filename r us = [] := by
  induction us generalizing r c with
  | nil =>
    refine ⟨?_, rfl⟩
    simp only [List.foldl_nil, List.map_nil, List.append_nil]
    rw [← hc]
  | cons u us ih =>
    obtain ⟨hu, hus⟩ := List.forall_mem_cons.mp h
    have ht : r.takes u = true := (Reading.takes_iff hc).mpr hu
    have hstep := Reading.step_takes filename ht
    -- the capture stays open and has one line more, so the next lines are taken too
    have htake : (r.take u).capture = some { c with lines := c.lines ++ [u.toBodyLine] } := by
      unfold Reading.take
      rw [hc]
      rfl
    obtain ⟨hrun, hnone⟩ := ih htake hus
    constructor
    · rw [List.foldl_cons, hstep, hrun]
      simp [Reading.take]
    · rw [contributions, Reading.addition?_of_takes ht, hstep, hnone]
      rfl

/-! ### Captures, line by line -/

theorem captures_nil (filename : Option Text) (r : Reading) : captures filename r [] = r.capture.toList := by
  unfold captures Reading.pending
  cases r.capture <;> simp [contributions]

theorem captures_of_taken (h : r.takes t = true) (ts : List LineToken) :
    captures filename r (t :: ts) = captures filename (r.step filename t) ts := by
  have hstep := Reading.step_takes filename h
  have hpending : r.pending (t :: ts) = (r.step filename t).pending ts := by
    rw [hstep]
    unfold Reading.pending Reading.take
    cases hc : r.capture with
    | none => rfl
    | some c =>
      have hlt : c.indent < t.indent := (Reading.takes_iff hc).mp h
      simp [List.takeWhile_cons, hlt]
  unfold captures
  rw [hpending, contributions, Reading.addition?_of_takes h]
  rfl

theorem captures_of_not_taken (h : r.takes t = false) (ts : List LineToken) :
    captures filename r (t :: ts) = r.capture.toList ++ captures filename (r.step filename t) ts := by
  have hpending : r.pending (t :: ts) = r.capture := by
    unfold Reading.pending
    cases hc : r.capture with
    | none => rfl
    | some c =>
      have hlt : ¬ c.indent < t.indent := fun hlt => by simp [(Reading.takes_iff hc).mpr hlt] at h
      simp [List.takeWhile_cons, hlt]
  have hcap := (Reading.reads_step filename r t).capture h
  unfold captures
  rw [hpending, contributions, List.filterMap_append, filterMap_toList]
  refine congrArg (fun xs => r.capture.toList ++ (xs ++ _)) ?_
  unfold Reading.pending
  rw [hcap]
  cases r.addition? filename t with
  | none => rfl
  | some a => cases a <;> rfl

/-! ### Declarations -/

theorem getLast?_toList {α : Type} (x : Option α) : x.toList.getLast? = x := by
  cases x <;> rfl

theorem declare_declared (filename : Option Text) (c : Capture) (r : Reading) :
    (r.declare filename c).functions = r.functions ++ (c.function? filename).toList ∧
      (r.declare filename c).services = r.services ++ (c.service? filename).toList ∧
      (r.declare filename c).mount = (c.mount? filename).or r.mount := by
  unfold Reading.declare Capture.function? Capture.service? Capture.mount?
  cases c.head <;> simp

theorem closeCapture_declared (filename : Option Text) (r : Reading) :
    (r.closeCapture filename).functions = r.functions ++ (r.capture.bind (·.function? filename)).toList ∧
      (r.closeCapture filename).services = r.services ++ (r.capture.bind (·.service? filename)).toList ∧
      (r.closeCapture filename).mount = (r.capture.bind (·.mount? filename)).or r.mount := by
  unfold Reading.closeCapture
  cases r.capture with
  | none => exact ⟨(List.append_nil _).symm, (List.append_nil _).symm, rfl⟩
  | some c => exact declare_declared filename c { r with capture := none }

/-- **What is declared** once a text has been read: what its captures declare, in order; of mount hooks the last. -/
theorem declared_foldl (filename : Option Text) (r : Reading) (ts : List LineToken) :
    ((ts.foldl (Reading.step filename) r).closeCapture filename).functions =
        r.functions ++ (captures filename r ts).filterMap (·.function? filename) ∧
      ((ts.foldl (Reading.step filename) r).closeCapture filename).services =
        r.services ++ (captures filename r ts).filterMap (·.service? filename) ∧
      ((ts.foldl (Reading.step filename) r).closeCapture filename).mount =
        ((captures filename r ts).filterMap (·.mount? filename)).getLast?.or r.mount := by
  induction ts generalizing r with
  | nil =>
    rw [captures_nil, filterMap_toList, filterMap_toList, filterMap_toList, getLast?_toList]
    exact closeCapture_declared filename r
  | cons t ts ih =>
    obtain ⟨hf, hs, hm⟩ := ih (r.step filename t)
    rw [List.foldl_cons, hf, hs, hm]
    cases ht : r.takes t with
    | true =>
      rw [captures_of_taken ht, Reading.step_takes filename ht]
      exact ⟨rfl, rfl, rfl⟩
    | false =>
      -- the open capture is closed, and declares what it has
      obtain ⟨hf', hs', hm'⟩ := (Reading.reads_step filename r t).declared ht
      obtain ⟨hf'', hs'', hm''⟩ := closeCapture_declared filename r
      rw [captures_of_not_taken ht, hf', hs', hm', hf'', hs'', hm'', List.filterMap_append, List.filterMap_append,
        List.filterMap_append, List.append_assoc, List.append_assoc, List.getLast?_append, Option.or_assoc,
        filterMap_toList, filterMap_toList, filterMap_toList, getLast?_toList]
      exact ⟨rfl, rfl, rfl⟩

end Trellis.Document
