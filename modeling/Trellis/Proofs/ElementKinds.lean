import Trellis.Proofs.TemplateSafety

/-!
# Names of elements

Every element of a document has an element name for its kind: a line opens an element only when its text is one, and no
later line changes it (`read_named`).  Lower case brings no colon into such a name (`colon_not_mem_lower`), so the class
of an element never looks like that of a pseudo-class.
-/

namespace Trellis

namespace Node

mutual

/-- Every element in the tree has an element name. -/
def Named : Node → Prop
  | .element kind _ _ cs _ => Form.isElement kind = true ∧ NamedAll cs
  | .pseudo _ _ _ => True
  | .condition _ cs _ | .loop _ _ _ _ cs _ => NamedAll cs

/-- Every element in the forest has an element name. -/
def NamedAll : List Node → Prop
  | [] => True
  | n :: ns => Named n ∧ NamedAll ns

end

theorem namedAll_concat {ns : List Node} {n : Node} : NamedAll (ns ++ [n]) ↔ NamedAll ns ∧ n.Named := by
  induction ns with
  | nil => simp [NamedAll]
  | cons m ns ih => rw [List.cons_append, NamedAll, NamedAll, ih, and_assoc]

end Node

namespace Document

/-- An element head has an element name. -/
def Head.Named : Head → Prop
  | .element kind _ => Form.isElement kind = true
  | _ => True

theorem Head.named_bare {head : Head} : head.bare.Named ↔ head.Named := by
  cases head <;> exact Iff.rfl

/-- A line opens an element only with an element name. -/
theorem Fate.named_of_ofLine {c : Context} {t : LineToken} {head : Head} (h : Fate.ofLine c t = .added (.node head)) :
    head.Named := by
  cases head with
  | element kind tag =>
    have hfits := Fate.sound c t
    rw [h] at hfits
    obtain ⟨hserver, ⟨hkind, rfl⟩, -⟩ := hfits
    by_contra hnamed
    have hname : ¬ Form.isElement t.text = true := hnamed
    rw [Fate.ofLine, if_neg (by simp [hserver]), Fate.outside, hkind] at h
    simp only [if_neg hname] at h
    cases h
  | _ => exact trivial

/-- The head has an element name, and so have the elements below. -/
def Frame.Named (f : Frame) : Prop := f.head.Named ∧ Node.NamedAll f.children

theorem Frame.named_close {f : Frame} (h : f.Named) : f.close.Named := by
  obtain ⟨hhead, hchildren⟩ := h
  unfold Frame.close
  cases hf : f.head with
  | element kind tag =>
    rw [hf] at hhead
    exact ⟨hhead, hchildren⟩
  | pseudo selector => exact trivial
  | condition branch => exact hchildren
  | loop item index collection key => exact hchildren

namespace Reading

variable {filename : Option Text} {r s : Reading} {t : LineToken} {a : Addition} {head : Head}

/-- The elements that have been read, open or closed, have element names. -/
def Named (r : Reading) : Prop := (∀ f ∈ r.stack, f.Named) ∧ Node.NamedAll r.roots

theorem named_popTo (n : Nat) (h : r.Named) : (r.popTo n).Named := by
  refine closeFrames_keeps (P := fun fs ns => (∀ f ∈ fs, f.Named) ∧ Node.NamedAll ns) ?_ ?_ n h
  · rintro f roots ⟨hstack, hroots⟩
    exact ⟨nofun, Node.namedAll_concat.mpr ⟨hroots, Frame.named_close (hstack f List.mem_cons_self)⟩⟩
  · rintro f g fs roots ⟨hstack, hroots⟩
    obtain ⟨hf, hg, hfs⟩ := List.forall_mem_cons.mp hstack |>.imp_right List.forall_mem_cons.mp
    refine ⟨List.forall_mem_cons.mpr ⟨⟨hg.1, ?_⟩, hfs⟩, hroots⟩
    exact Node.namedAll_concat.mpr ⟨hg.2, Frame.named_close hf⟩

theorem named_closeCapture (filename : Option Text) (h : r.Named) : (r.closeCapture filename).Named := by
  rw [closeCapture_frame]
  exact h

theorem named_closeServer (h : r.Named) : r.closeServer.Named := by
  rw [closeServer_frame]
  exact h

theorem named_settle (filename : Option Text) (t : LineToken) (h : r.Named) : (r.settle filename t).Named := by
  simp only [settle]
  split
  · exact named_closeCapture filename h
  · exact named_popTo _ (named_closeServer (named_closeCapture filename h))

theorem named_of_addition? (h : r.addition? filename t = some (.node head)) : head.Named := by
  unfold addition? at h
  split at h
  · cases h
  · cases hfate : Fate.ofLine (r.settle filename t).context t with
    | dropped p =>
      rw [hfate] at h
      cases h
    | added a =>
      rw [hfate] at h
      cases h
      exact Fate.named_of_ofLine hfate

theorem named_addTo? (h : r.Named) (hnode : ∀ head, a = .node head → head.Named)
    (ha : a.addTo? filename t r = some s) : s.Named := by
  have heffect := Addition.addTo?_effect ha
  have hroots : s.roots = r.roots := by rw [heffect.frame]
  unfold Named
  rw [hroots]
  obtain hstack | ⟨head, rfl, rfl⟩ | ⟨f, f', fs, hr, hs, hsame⟩ := heffect.stack
  · rw [hstack]
    exact h
  · exact ⟨List.forall_mem_cons.mpr ⟨⟨hnode head rfl, trivial⟩, h.1⟩, h.2⟩
  · obtain ⟨hf, hfs⟩ := List.forall_mem_cons.mp (hr ▸ h.1)
    rw [hs]
    refine ⟨List.forall_mem_cons.mpr ⟨⟨?_, ?_⟩, hfs⟩, h.2⟩
    · rw [← Head.named_bare, hsame.bare]
      exact Head.named_bare.mpr hf.1
    · rw [hsame.children]
      exact hf.2

theorem named_step (filename : Option Text) (t : LineToken) (h : r.Named) : (r.step filename t).Named := by
  have hnode : ∀ a ∈ r.addition? filename t, ∀ head, a = .node head → head.Named := by
    rintro a ha head rfl
    exact named_of_addition? ha
  have hreads := reads_step filename r t
  generalize r.addition? filename t = x, r.step filename t = s at hreads hnode
  cases hreads with
  | taken ht => exact h
  | comment ht hk => exact named_closeCapture filename h
  | dropped ht hk p => exact named_settle filename t h
  | added ht hk hfit ha =>
    have hwarned : ((r.settle filename t).warn filename t).Named := named_settle filename t h
    exact named_addTo? hwarned (hnode _ rfl) ha

theorem named_foldl (filename : Option Text) (ts : List LineToken) (h : r.Named) :
    (ts.foldl (step filename) r).Named := by
  induction ts generalizing r with
  | nil => exact h
  | cons t ts ih => exact ih (named_step filename t h)

end Reading

/-- **The elements of a document have element names.** -/
theorem read_named (filename : Option Text) (source : Text) : Node.NamedAll (read filename source).children := by
  have hrun := Reading.named_foldl (r := {}) filename (LineToken.tokenize source) ⟨nofun, trivial⟩
  exact (Reading.named_popTo 0 (Reading.named_closeServer (Reading.named_closeCapture filename hrun))).2

end Document

namespace Component

mutual

theorem named_classed : ∀ (n : Node) {shown : Bool} {owner : Option Text} {sheet : Sheet}, n.Named →
    ∀ g ∈ classed shown owner sheet n, g.node.Named
  | .element kind tag properties children l, shown, owner, sheet, h => by
    rw [classed]
    exact List.forall_mem_cons.mpr ⟨h, named_classedAll children h.2⟩
  | .pseudo selector properties l, shown, owner, sheet, h => nofun
  | .condition branch children l, shown, owner, sheet, h => named_classedAll children h
  | .loop item index collection key children l, shown, owner, sheet, h => named_classedAll children h

/-- The elements with their classes have element names. -/
theorem named_classedAll : ∀ (ns : List Node) {shown : Bool} {owner : Option Text} {sheet : Sheet}, Node.NamedAll ns →
    ∀ g ∈ classedAll shown owner sheet ns, g.node.Named
  | [], shown, owner, sheet, h => nofun
  | n :: ns, shown, owner, sheet, h => by
    rw [classedAll]
    exact List.forall_mem_append.mpr ⟨named_classed n h.1, named_classedAll ns h.2⟩

end

end Component

/-! ### Lower case -/

namespace Text

theorem ofNat_ne_colon {n : Nat} (h : ':'.toNat < n) : Char.ofNat n ≠ ':' := by
  intro hc
  by_cases hvalid : n.isValidChar
  · rw [Char.ofNat, dif_pos hvalid] at hc
    have hn : n = ':'.toNat := congrArg Char.toNat hc
    omega
  · rw [Char.ofNat, dif_neg hvalid] at hc
    cases hc

/-- Every run of capitals has its lower case behind the colon. -/
theorem colon_lt_lowerRuns : ∀ r ∈ lowerRuns, (':'.toNat : Int) < r.first + r.shift := by decide +kernel

theorem lowerChar_ne_colon {c : Char} (hc : c ≠ ':') : lowerChar c ≠ ':' := by
  simp only [lowerChar]
  split
  · split
    · next hupper =>
      simp only [Bool.and_eq_true, decide_eq_true_eq] at hupper
      have hcolon : ':'.toNat = 58 := rfl
      exact ofNat_ne_colon (by omega)
    · exact hc
  · cases hfind : lowerRuns.find? fun r =>
        r.first ≤ c.toNat && c.toNat ≤ r.last && (c.toNat - r.first) % r.stride = 0 with
    | none => exact hc
    | some r =>
      have hr := colon_lt_lowerRuns r (List.mem_of_find?_eq_some hfind)
      have hfirst := List.find?_some hfind
      simp only [Bool.and_eq_true, decide_eq_true_eq] at hfirst
      exact ofNat_ne_colon (by omega)

theorem colon_not_mem_lowerFrom {t : Text} (h : ':' ∉ t) (before : Text) : ':' ∉ lowerFrom before t := by
  induction t generalizing before with
  | nil => exact List.not_mem_nil
  | cons c t ih =>
    obtain ⟨hc, ht⟩ := List.ne_and_not_mem_of_not_mem_cons h
    rw [lowerFrom]
    split
    · refine List.not_mem_cons_of_ne_of_not_mem (Ne.symm (ofNat_ne_colon ?_)) (ih ht _)
      split <;> decide
    · split
      · refine List.not_mem_cons_of_ne_of_not_mem (by decide) (List.not_mem_cons_of_ne_of_not_mem ?_ (ih ht _))
        decide
      · exact List.not_mem_cons_of_ne_of_not_mem (lowerChar_ne_colon hc.symm).symm (ih ht _)

/-- An element name holds no colon in lower case. -/
theorem colon_not_mem_lower {kind : Text} (h : Form.isElement kind = true) : ':' ∉ lower kind := by
  refine colon_not_mem_lowerFrom ?_ []
  cases kind with
  | nil => cases h
  | cons c t =>
    obtain ⟨hc, ht⟩ := Bool.and_eq_true_iff.mp h
    rintro (_ | ⟨_, hmem⟩)
    · exact absurd hc (by decide)
    · exact absurd (List.all_eq_true.mp ht _ hmem) (by decide)

end Text

end Trellis
