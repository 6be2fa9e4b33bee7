import Trellis.Proofs.Simulation
import Trellis.Proofs.Tokens

/-!
# Sources further down

Lines that stand `n` lines further down are read in the same way, and everything that is known about where they are
moves down with them (`ofTokens_down`).  The tokens of two sources, one behind the other, are those of the first and, as
many lines further down as the first has, those of the second (`tokenize_of_lines`).
-/

namespace Trellis

/-! ### Moving down -/

/-- The location, `n` lines further down. -/
def Location.down (n : Nat) (l : Location) : Location := { l with line := l.line + n }

def Span.down (n : Nat) (s : Span) : Span := { s with line := s.line + n }

def Diagnostic.down (n : Nat) (d : Diagnostic) : Diagnostic := { d with spans := d.spans.map (Span.down n) }

def BodyLine.down (n : Nat) (l : BodyLine) : BodyLine := { l with line := l.line + n }

def LineToken.down (n : Nat) (t : LineToken) : LineToken := { t with line := t.line + n }

namespace View

/-- Everything `n` lines further down. -/
def down (n : Nat) : View := { line := BodyLine.down n, place := Location.down n, report := Diagnostic.down n }

/-- Everything as it is. -/
def same : View := { line := id, place := id, report := id }

theorem same_property : same.property = id := rfl

theorem same_stateDecl : same.stateDecl = id := rfl

theorem same_serviceMethod : same.serviceMethod = id := rfl

theorem same_aliasDecl : same.aliasDecl = id := rfl

theorem same_line : same.line = id := rfl

mutual

theorem same_node : ∀ n : Node, same.node n = n
  | .element kind tag ps cs l => by
    rw [node, same_property, List.map_id, same_nodes cs]
    rfl
  | .pseudo selector ps l => by
    rw [node, same_property, List.map_id]
    rfl
  | .condition branch cs l => by
    rw [node, same_nodes cs]
    rfl
  | .loop item index collection key cs l => by
    rw [node, same_nodes cs]
    rfl

theorem same_nodes : ∀ ns : List Node, same.nodes ns = ns
  | [] => rfl
  | n :: ns => by rw [nodes, same_node n, same_nodes ns]

end

mutual

theorem same_statement : ∀ s : Statement, same.statement s = s
  | .comment text l => rfl
  | .raw text body l => by
    rw [statement, same_statements body]
    rfl
  | .assign target value body l => by
    rw [statement, same_statements body]
    rfl
  | .cond condition body orelse l => by
    rw [statement, same_statements body, same_statements orelse]
    rfl
  | .respond value l => rfl
  | .respondBlock block l => rfl

theorem same_statements : ∀ ss : List Statement, same.statements ss = ss
  | [] => rfl
  | s :: ss => by rw [statements, same_statement s, same_statements ss]

end

theorem same_functionDecl : same.functionDecl = id := by
  funext f
  rw [functionDecl, same_line, List.map_id, same_statements]
  rfl

theorem same_serviceDecl : same.serviceDecl = id := by
  funext s
  rw [serviceDecl, same_line, List.map_id, same_serviceMethod, List.map_id]
  rfl

theorem same_mountHook : same.mountHook = id := by
  funext m
  rw [mountHook, same_line, List.map_id, same_statements]
  rfl

theorem same_route : same.route = id := by
  funext r
  rw [route, same_line, List.map_id, same_statements]
  rfl

theorem same_server : same.server = id := by
  funext s
  rw [server, same_stateDecl, List.map_id, same_route, List.map_id]
  rfl

/-- A document, seen as it is. -/
theorem same_document (d : Document) : same.document d = d := by
  rw [document, same_nodes, script, same_stateDecl, same_functionDecl, same_serviceDecl, same_aliasDecl,
    same_mountHook, same_server]
  simp only [List.map_id, Option.map_id]
  exact congrArg (fun ds => (⟨d.children, d.script, ds⟩ : Document)) (List.map_id _)

end View

/-! ### Reading further down -/

/-- Every line corresponds to itself, further down. -/
def downward (filename : Option Text) (n : Nat) : Correspondence filename (View.down n) View.same where
  Line l m := m = l.down n ∧ 0 ≤ l.indent
  line := by
    rintro l m ⟨rfl, -⟩
    rfl
  place := by
    rintro l m ⟨rfl, -⟩
    rfl
  report := by
    rintro l m ⟨rfl, -⟩ p
    rfl
  code := by
    rintro l m ⟨rfl, -⟩
    rfl
  isComment := by
    rintro l m ⟨rfl, -⟩
    rfl
  comment := by
    rintro l m ⟨rfl, -⟩ -
    rfl
  nonneg := by
    rintro l m ⟨rfl, h⟩
    exact ⟨h, h⟩
  order := by
    rintro l m l' m' ⟨rfl, -⟩ ⟨rfl, -⟩
    exact Iff.rfl

theorem downward_token (filename : Option Text) (n : Nat) (t : LineToken) :
    (downward filename n).Token t (t.down n) where
  line := ⟨by simp [LineToken.toBodyLine, LineToken.down, BodyLine.down], Int.natCast_nonneg _⟩
  kind := rfl
  text := rfl

theorem downward_tokens (filename : Option Text) (n : Nat) (ts : List LineToken) :
    List.Forall₂ (downward filename n).Token ts (ts.map (LineToken.down n)) := by
  rw [List.forall₂_map_right_iff, List.forall₂_same]
  exact fun t _ => downward_token filename n t

/-- Readings of lines and of the same lines further down go alike. -/
theorem Document.alike_down (filename : Option Text) (n : Nat) (ts : List LineToken) :
    Alike (downward filename n) (Reading.run filename ts) (Reading.run filename (ts.map (LineToken.down n))) :=
  alike_nil.foldl (downward_tokens filename n ts)

/-- **Reading further down**: the document is the same, further down. -/
theorem Document.ofTokens_down (filename : Option Text) (n : Nat) (ts : List LineToken) :
    ofTokens filename (ts.map (LineToken.down n)) = (View.down n).document (ofTokens filename ts) := by
  rw [← View.same_document (ofTokens filename (ts.map (LineToken.down n)))]
  exact (alike_down filename n ts).finish.toDocument.symm

/-! ### One source behind another -/

namespace LineToken

theorem classify_down (m n : Nat) (raw : Text) : classify (m + n) raw = (classify m raw).down n := by
  unfold classify
  split <;> rfl

theorem ofLines_down (m n : Nat) (ls : List Text) : ofLines (m + n) ls = (ofLines m ls).map (down n) := by
  induction ls generalizing m with
  | nil => rfl
  | cons l ls ih =>
    have hnext : ofLines (m + n + 1) ls = (ofLines (m + 1) ls).map (down n) := by
      rw [Nat.add_right_comm, ih]
    unfold ofLines
    by_cases hb : Text.isBlankText l = true
    · rw [if_pos hb, if_pos hb, hnext]
    · rw [if_neg hb, if_neg hb, hnext, classify_down, List.map_cons]

theorem ofLines_append (m : Nat) (ls ls' : List Text) :
    ofLines m (ls ++ ls') = ofLines m ls ++ ofLines (m + ls.length) ls' := by
  induction ls generalizing m with
  | nil => rfl
  | cons l ls ih =>
    have hlength : m + (l :: ls).length = m + 1 + ls.length := by
      rw [List.length_cons]
      omega
    rw [List.cons_append, hlength]
    by_cases hb : Text.isBlankText l = true
    · rw [ofLines, if_pos hb, ofLines, if_pos hb, ih]
    · rw [ofLines, if_neg hb, ofLines, if_neg hb, ih, List.cons_append]

/-- The tokens of a source whose lines are those of two others. -/
theorem tokenize_of_lines {source first second : Text} (h : Text.lines source = Text.lines first ++ Text.lines second) :
    tokenize source = tokenize first ++ (tokenize second).map (down (Text.lines first).length) := by
  unfold tokenize
  rw [h, ofLines_append, ofLines_down]

end LineToken

end Trellis
