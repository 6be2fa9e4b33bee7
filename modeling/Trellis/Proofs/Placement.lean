import Trellis.Proofs.Provenance

/-!
# Where nodes stand

What a template can rely on: a pseudo-class stands directly in an element, an `else` directly behind an `if`, and an
`if` has a test.  `Node.Sound` says so for a node, given what it stands in and behind; a reading keeps it for its closed
nodes and for its open ones as if they were closed (`Standing`), and so it holds of every list of children of a document
(`read_sound`).
-/

namespace Trellis

open Document (isIf)

theorem getLast?_cons_or {α : Type} (a : α) (as : List α) (x : Option α) :
    (a :: as).getLast?.or x = as.getLast?.or (some a) := by
  rw [List.getLast?_cons]
  cases as.getLast? <;> rfl

namespace Node

def isElement : Node → Bool
  | .element _ _ _ _ _ => true
  | _ => false

mutual

/-- The node may stand in an element or not, behind the sibling `previous`, and so may the nodes below it. -/
def Sound (inElement : Bool) (previous : Option Node) : Node → Prop
  | .element _ _ _ cs _ => SoundAll true none cs
  | .pseudo _ _ _ => inElement = true
  | .condition (.when test) cs _ => test ≠ [] ∧ SoundAll false none cs
  | .condition .otherwise cs _ => (previous.map isIf).getD false = true ∧ SoundAll false none cs
  | .loop _ _ _ _ cs _ => SoundAll false none cs

/-- The nodes may stand one behind the other. -/
def SoundAll (inElement : Bool) (previous : Option Node) : List Node → Prop
  | [] => True
  | n :: ns => Sound inElement previous n ∧ SoundAll inElement (some n) ns

end

variable {inElement : Bool} {previous : Option Node} {n : Node} {ns ms : List Node}

theorem soundAll_append :
    SoundAll inElement previous (ns ++ ms) ↔
      SoundAll inElement previous ns ∧ SoundAll inElement (ns.getLast?.or previous) ms := by
  induction ns generalizing previous with
  | nil => simp [SoundAll]
  | cons n ns ih =>
    rw [List.cons_append, SoundAll, SoundAll, ih, getLast?_cons_or, and_assoc]

theorem soundAll_concat :
    SoundAll inElement previous (ns ++ [n]) ↔
      SoundAll inElement previous ns ∧ Sound inElement (ns.getLast?.or previous) n := by
  rw [soundAll_append]
  simp [SoundAll]

/-- The children of a sound node are sound. -/
theorem soundAll_children (h : Sound inElement previous n) : SoundAll n.isElement none n.children := by
  cases n with
  | element kind tag ps cs l => exact h
  | pseudo selector ps l => exact trivial
  | condition branch cs l =>
    cases branch with
    | when test => exact h.2
    | otherwise => exact h.2
  | loop item index collection key cs l => exact h

end Node

namespace Document

/-! ### Open nodes -/

/-- A node with this head and these children is sound. -/
def Head.Sound (inElement : Bool) (previous : Option Node) (children : List Node) : Head → Prop
  | .element _ _ => Node.SoundAll true none children
  | .pseudo _ => inElement = true
  | .condition (.when test) => test ≠ [] ∧ Node.SoundAll false none children
  | .condition .otherwise => (previous.map isIf).getD false = true ∧ Node.SoundAll false none children
  | .loop _ _ _ _ => Node.SoundAll false none children

/-- The head is that of an element. -/
def Head.isElement : Head → Bool
  | .element _ _ => true
  | _ => false

variable {inElement : Bool} {previous : Option Node} {head : Head} {children : List Node}

theorem Head.sound_bare : head.bare.Sound inElement previous children ↔ head.Sound inElement previous children := by
  cases head <;> exact Iff.rfl

/-- A node may take one more child. -/
theorem Head.sound_child {n : Node} (h : head.Sound inElement previous children)
    (hn : n.Sound head.isElement children.getLast?) : head.Sound inElement previous (children ++ [n]) := by
  have hchildren : ∀ e, Node.SoundAll e none children → n.Sound e children.getLast? →
      Node.SoundAll e none (children ++ [n]) := by
    intro e hc hn
    refine Node.soundAll_concat.mpr ⟨hc, ?_⟩
    rwa [Option.or_none]
  cases head with
  | element kind tag => exact hchildren true h hn
  | pseudo selector => exact h
  | condition branch =>
    cases branch with
    | when test => exact ⟨h.1, hchildren false h.2 hn⟩
    | otherwise => exact ⟨h.1, hchildren false h.2 hn⟩
  | loop item index collection key => exact hchildren false h hn

theorem Frame.sound_close {f : Frame} :
    f.close.Sound inElement previous ↔ f.head.Sound inElement previous f.children := by
  unfold Frame.close
  cases f.head with
  | condition branch => cases branch <;> exact Iff.rfl
  | _ => exact Iff.rfl

/-- The closed nodes are sound, and so is every open node with its children so far. -/
def Standing : List Frame → List Node → Prop
  | [], roots => Node.SoundAll false none roots
  | [f], roots => f.head.Sound false roots.getLast? f.children ∧ Node.SoundAll false none roots
  | f :: g :: gs, roots =>
    f.head.Sound g.head.isElement g.children.getLast? f.children ∧ Standing (g :: gs) roots

variable {f f' g : Frame} {fs : List Frame} {roots : List Node}

theorem Standing.soundAll (h : Standing fs roots) : Node.SoundAll false none roots := by
  induction fs with
  | nil => exact h
  | cons f fs ih =>
    cases fs with
    | nil => exact h.2
    | cons g gs => exact ih h.2

/-- The innermost open node may be replaced by one that is sound in its place. -/
theorem Standing.replace (h : Standing (f :: fs) roots)
    (hf : ∀ e p, f.head.Sound e p f.children → f'.head.Sound e p f'.children) : Standing (f' :: fs) roots := by
  cases fs with
  | nil => exact ⟨hf _ _ h.1, h.2⟩
  | cons g gs => exact ⟨hf _ _ h.1, h.2⟩

theorem closeFrames_standing (indent : Nat) (stack : List Frame) (roots : List Node) (h : Standing stack roots) :
    Standing (Reading.closeFrames indent stack roots).1 (Reading.closeFrames indent stack roots).2 := by
  refine Reading.closeFrames_keeps (fun f roots h => ?_) (fun f g fs roots h => ?_) indent h
  · refine Node.soundAll_concat.mpr ⟨h.2, ?_⟩
    rw [Option.or_none]
    exact Frame.sound_close.mpr h.1
  · exact h.2.replace fun e p hg => Head.sound_child hg (Frame.sound_close.mpr h.1)

/-! ### Readings -/

namespace Reading

variable {filename : Option Text} {t : LineToken} {r s : Reading} {ts : List LineToken}

/-- The nodes that have been read stand where they may. -/
def Sound (r : Reading) : Prop := Standing r.stack r.roots

theorem sound_popTo (n : Nat) (h : r.Sound) : (r.popTo n).Sound := closeFrames_standing n r.stack r.roots h

theorem sound_closeCapture (filename : Option Text) (h : r.Sound) : (r.closeCapture filename).Sound := by
  rw [closeCapture_frame]
  exact h

theorem sound_closeServer (h : r.Sound) : r.closeServer.Sound := by
  rw [closeServer_frame]
  exact h

theorem sound_settle (filename : Option Text) (t : LineToken) (h : r.Sound) : (r.settle filename t).Sound := by
  simp only [settle]
  split
  · exact sound_closeCapture filename h
  · exact sound_popTo _ (sound_closeServer (sound_closeCapture filename h))

/-- A node that may be opened is sound where it is opened. -/
theorem sound_of_mayOpen {head : Head} (ho : head.Opens t) (hm : head.MayOpen r.context)
    (htest : t.kind = .cond → t.text ≠ []) :
    head.Sound ((r.context.parent.map Head.isElement).getD false) r.lastSibling? [] := by
  cases head with
  | element kind tag => exact trivial
  | pseudo selector =>
    obtain ⟨kind, tag, hp⟩ := hm
    rw [hp]
    rfl
  | condition branch =>
    cases branch with
    | when test =>
      obtain ⟨hk, rfl⟩ := ho
      exact ⟨htest hk, trivial⟩
    | otherwise =>
      have hafter : r.context.afterIf = true := hm
      rw [context_afterIf] at hafter
      exact ⟨hafter, trivial⟩
  | loop item index collection key => exact trivial

theorem sound_push {head : Head} (h : r.Sound) (ho : head.Opens t) (hm : head.MayOpen r.context)
    (htest : t.kind = .cond → t.text ≠ []) : (r.push filename t head).Sound := by
  have hopened := sound_of_mayOpen ho hm htest
  unfold Sound push context lastSibling? at *
  cases hs : r.stack with
  | nil =>
    rw [hs] at h hopened
    exact ⟨hopened, h⟩
  | cons g gs =>
    rw [hs] at h hopened
    exact ⟨hopened, h⟩

theorem sound_addTo? {a : Addition} (h : r.Sound) (hfit : a.Fits r.context t)
    (htest : t.kind = .cond → t.text ≠ []) (ha : a.addTo? filename t r = some s) : s.Sound := by
  have heffect := Addition.addTo?_effect ha
  have hroots : s.roots = r.roots := by rw [heffect.frame]
  obtain hstack | ⟨head, rfl, rfl⟩ | ⟨f, f', fs, hr, hs, hsame⟩ := heffect.stack
  · unfold Sound
    rw [hstack, hroots]
    exact h
  · exact sound_push h hfit.2.1 hfit.2.2 htest
  · unfold Sound at h ⊢
    rw [hs, hroots]
    rw [hr] at h
    refine h.replace fun e p hf => ?_
    rw [hsame.children, ← Head.sound_bare, hsame.bare]
    exact Head.sound_bare.mpr hf

/-- **A line keeps the nodes where they may stand.** -/
theorem sound_step (filename : Option Text) (h : r.Sound) (htest : t.kind = .cond → t.text ≠ []) :
    (r.step filename t).Sound := by
  have hreads := reads_step filename r t
  generalize r.addition? filename t = x, r.step filename t = s at hreads
  cases hreads with
  | taken ht => exact h
  | comment ht hk => exact sound_closeCapture filename h
  | dropped ht hk p => exact sound_settle filename t h
  | added ht hk hfit ha =>
    have hwarned : ((r.settle filename t).warn filename t).Sound := sound_settle filename t h
    exact sound_addTo? hwarned hfit htest ha

theorem sound_foldl (filename : Option Text) (h : r.Sound) (htest : ∀ t ∈ ts, t.kind = .cond → t.text ≠ []) :
    (ts.foldl (step filename) r).Sound := by
  induction ts generalizing r with
  | nil => exact h
  | cons t ts ih =>
    obtain ⟨ht, hts⟩ := List.forall_mem_cons.mp htest
    exact ih (sound_step filename h ht) hts

end Reading

end Document

/-! ### Documents -/

namespace Node

/-- The lists of children in a forest, each with the node that they are the children of. -/
inductive Level (roots : List Node) : Option Node → List Node → Prop where
  | top : Level roots none roots
  | deeper {parent : Option Node} {ns : List Node} {n : Node} (h : Level roots parent ns) (hn : n ∈ ns) :
    Level roots (some n) n.children

variable {roots ns before after : List Node} {parent : Option Node} {n : Node}

theorem sound_of_soundAll {inElement : Bool} (h : SoundAll inElement none (before ++ n :: after)) :
    Sound inElement before.getLast? n := by
  have hn := (soundAll_append.mp h).2.1
  rwa [Option.or_none] at hn

theorem Level.soundAll (h : SoundAll false none roots) (hl : Level roots parent ns) :
    SoundAll ((parent.map isElement).getD false) none ns := by
  induction hl with
  | top => exact h
  | deeper _ hn ih =>
    obtain ⟨before, after, rfl⟩ := List.append_of_mem hn
    exact soundAll_children (sound_of_soundAll ih)

end Node

/-- The nodes of a document stand where they may. -/
theorem Document.read_sound (filename : Option Text) (source : Text) :
    Node.SoundAll false none (read filename source).children := by
  have htest : ∀ t ∈ LineToken.tokenize source, t.kind = .cond → t.text ≠ [] := by
    intro t ht hk
    rw [LineToken.eq_classify_of_mem ht] at hk ⊢
    exact LineToken.text_ne_nil_of_cond hk
  have hrun := Reading.sound_foldl (r := {}) filename trivial htest
  have hfinish := Reading.sound_popTo 0 (Reading.sound_closeServer (Reading.sound_closeCapture filename hrun))
  exact Standing.soundAll hfinish

end Trellis
