import Trellis.Document.Read

/-!
# The fate of a line

What becomes of a line that is neither collected by a capture nor a comment.  It is `dropped` with a problem, or it is
`added`; an `Addition` is what the line says without where it says it.  `Fate.ofLine` depends on the kind and text of
the line and on its `Context`, and on nothing else of the reading.  `Fate.sound` says what a fate can be: an error of
one of three codes, or an addition that fits its context.
-/

namespace Trellis.Document

/-- What a line adds to a reading, apart from where the line is. -/
inductive Addition where
  | state (typeName name value : Text)
  | serverState (typeName name value : Text)
  | aliasOf (source name : Text)
  | capture (head : CaptureHead)
  | server (name : Text) (port : Option Text)
  | node (head : Head)
  | property (key : Text) (value : Value.Class)
  | tag (name : Text)
  | loopKey (expression : Text)
  deriving DecidableEq, Repr

/-- What becomes of a line. -/
inductive Fate where
  | dropped (problem : Problem)
  | added (addition : Addition)
  deriving DecidableEq, Repr

/-- What the fate of a line depends on besides the line: whether it is inside a server, the innermost open markup
node, and whether the node just before the line is an `if`. -/
structure Context where
  inServer : Bool
  parent : Option Head
  afterIf : Bool
  deriving DecidableEq, Repr

namespace Fate

/-- A line whose text must have a form. -/
def ofForm {α : Type} (p : Problem) (add : α → Addition) : Option α → Fate
  | some parts => .added (add parts)
  | none => .dropped p

/-- A line that opens a markup node, unless it is inside a pseudo-class. -/
def ofMarkup (parent : Option Head) (head : Head) : Fate :=
  match parent with
  | some (.pseudo _) => .dropped .onlyStyles
  | _ => .added (.node head)

def ofPseudo (parent : Option Head) (text : Text) : Fate :=
  if text.isEmpty then .dropped .missingSelector
  else match parent with
    | some (.element _ _) => .added (.node (.pseudo text))
    | _ => .dropped .pseudoOutsideElement

def ofProperty (parent : Option Head) (text : Text) : Fate :=
  match Form.property? text with
  | none => .dropped .malformedProperty
  | some (key, raw) =>
    let value := Value.classify (raw.getD [])
    match parent with
    | some (.element _ _) =>
      if key = "tag" then
        match value with
        | .flag => .dropped .missingTag
        | .static name | .dynamic name => .added (.tag name)
      else .added (.property key value)
    | some (.pseudo _) => .added (.property key value)
    | some (.loop _ _ _ _) =>
      if key = "key" && !(raw.getD []).isEmpty then .added (.loopKey (raw.getD [])) else .dropped .notForLoop
    | some (.condition _) | none => .dropped .propertyOutsideElement

/-- A line that starts with nothing known. -/
def ofUnknown (t : LineToken) : Fate :=
  let word := (Text.words t.content).headD t.content
  .dropped (.unrecognised (suggestSimilar word LineKind.leaders 2 3).head?)

/-- A line inside a server. -/
def inServer (t : LineToken) : Fate :=
  match t.kind with
  | .state => ofForm .malformedState (fun (type, name, value) => .serverState type name value) (Form.state? t.text)
  | .route verb =>
    ofForm (.malformedRoute verb) (fun (name, path, smart) => .capture (.route verb name path smart))
      (Form.route? t.text)
  | _ => .dropped .notForServer

/-- A line outside every server. -/
def outside (c : Context) (t : LineToken) : Fate :=
  match t.kind with
  | .state => ofForm .malformedState (fun (type, name, value) => .state type name value) (Form.state? t.text)
  | .fn =>
    ofForm .malformedFunction (fun (name, parameters) => .capture (.function name parameters))
      (Form.function? t.text)
  | .server => ofForm .malformedServer (fun (name, port) => .server name port) (Form.server? t.text)
  | .route _ => .dropped .routeOutsideServer
  | .property => ofProperty c.parent t.text
  | .pseudo => ofPseudo c.parent t.text
  | .cond => ofMarkup c.parent (.condition (.when t.text))
  | .otherwise => if c.afterIf then .added (.node (.condition .otherwise)) else .dropped .elseWithoutIf
  | .loop =>
    match Form.loop? t.text with
    | some (item, index, collection) => ofMarkup c.parent (.loop item index collection none)
    | none => .dropped .malformedLoop
  | .service => ofForm .malformedService (fun (name, url) => .capture (.service name url)) (Form.service? t.text)
  | .use => ofForm .malformedUse (fun (source, name) => .aliasOf source name) (Form.aliasOf? t.text)
  | .onMount => if t.text = [] || t.text = [':'] then .added (.capture .mount) else .dropped .malformedMount
  | .element =>
    if Form.isElement t.text then ofMarkup c.parent (.element t.text none) else .dropped .malformedElement
  | .comment | .unknown => ofUnknown t

/-- What becomes of a line that is neither taken by a capture nor a comment. -/
def ofLine (c : Context) (t : LineToken) : Fate := if c.inServer then inServer t else outside c t

end Fate

/-! ### What a fate can be -/

/-- The codes of unrecognised, malformed and misplaced lines. -/
def dropCodes : List Text := ["E0201", "E0202", "E0203"]

/-- The problem is an error for which a line is dropped. -/
def Drops (p : Problem) : Prop := p.level = .error ∧ p.code ∈ dropCodes

instance (p : Problem) : Decidable (Drops p) := inferInstanceAs (Decidable (_ ∧ _))

theorem drops_unrecognised (suggestion : Option Text) : Drops (.unrecognised suggestion) :=
  ⟨rfl, List.mem_cons_self⟩

theorem drops_malformedRoute (verb : Verb) : Drops (.malformedRoute verb) :=
  ⟨rfl, List.mem_cons_of_mem _ List.mem_cons_self⟩

/-- The line can open a node with this head; tags and keys come from later lines. -/
def Head.Opens (t : LineToken) : Head → Prop
  | .element kind _ => t.kind = .element ∧ kind = t.text
  | .pseudo selector => t.kind = .pseudo ∧ selector = t.text
  | .condition (.when test) => t.kind = .cond ∧ test = t.text
  | .condition .otherwise => t.kind = .otherwise
  | .loop item index collection _ => t.kind = .loop ∧ Form.loop? t.text = some (item, index, collection)

/-- The head as its own line gives it, without the tag or key of later lines. -/
def Head.bare : Head → Head
  | .element kind _ => .element kind none
  | .loop item index collection _ => .loop item index collection none
  | head => head

theorem Head.opens_bare {t : LineToken} {head : Head} (h : head.Opens t) : head.bare.Opens t := by
  cases head <;> exact h

theorem Head.kind_ne_comment {t : LineToken} {head : Head} (h : head.Opens t) : t.kind ≠ .comment := by
  intro hk
  cases head with
  | condition branch =>
    cases branch with
    | when test => cases hk.symm.trans h.1
    | otherwise => cases hk.symm.trans h
  | _ => cases hk.symm.trans h.1

/-- Where a node with this head may be opened. -/
def Head.MayOpen (c : Context) : Head → Prop
  | .pseudo _ => ∃ kind tag, c.parent = some (.element kind tag)
  | .condition .otherwise => c.afterIf = true
  | _ => ∀ selector, c.parent ≠ some (.pseudo selector)

/-- Where a line may make an addition. -/
def Addition.Fits (c : Context) (t : LineToken) : Addition → Prop
  | .state _ _ _ | .aliasOf _ _ | .server _ _ => c.inServer = false
  | .serverState _ _ _ | .capture (.route _ _ _ _) => c.inServer = true
  | .capture _ => c.inServer = false
  | .node head => c.inServer = false ∧ head.Opens t ∧ head.MayOpen c
  | .property _ _ =>
    c.inServer = false ∧ ∃ head, c.parent = some head ∧
      ((∃ kind tag, head = .element kind tag) ∨ ∃ selector, head = .pseudo selector)
  | .tag _ => c.inServer = false ∧ ∃ kind tag, c.parent = some (.element kind tag)
  | .loopKey _ => c.inServer = false ∧ ∃ item index collection key, c.parent = some (.loop item index collection key)

namespace Fate

/-- A line is dropped with an error of the three codes, and added only where its addition fits. -/
def Sound (c : Context) (t : LineToken) : Fate → Prop
  | .dropped p => Drops p
  | .added a => a.Fits c t

variable {c : Context} {t : LineToken}

theorem sound_dropped {p : Problem} (h : Drops p) : (dropped p).Sound c t := h

theorem sound_ofForm {α : Type} {p : Problem} {add : α → Addition} {x : Option α}
    (hp : Drops p) (ha : ∀ parts, (add parts).Fits c t) :
    (ofForm p add x).Sound c t := by
  cases x with
  | none => exact hp
  | some parts => exact ha parts

theorem sound_ofMarkup {head : Head} (hc : c.inServer = false) (ho : head.Opens t)
    (hm : (∀ selector, c.parent ≠ some (.pseudo selector)) → head.MayOpen c) :
    (ofMarkup c.parent head).Sound c t := by
  unfold ofMarkup
  split
  · exact sound_dropped (by decide)
  · rename_i hp
    exact ⟨hc, ho, hm fun selector h => hp selector h⟩

theorem sound_ofPseudo (hc : c.inServer = false) (hk : t.kind = .pseudo) :
    (ofPseudo c.parent t.text).Sound c t := by
  unfold ofPseudo
  by_cases ht : t.text.isEmpty
  · rw [if_pos ht]
    exact sound_dropped (by decide)
  · rw [if_neg ht]
    split
    · rename_i kind tag hp
      exact ⟨hc, ⟨hk, rfl⟩, kind, tag, hp⟩
    · exact sound_dropped (by decide)

theorem sound_ofProperty (hc : c.inServer = false) : (ofProperty c.parent t.text).Sound c t := by
  unfold ofProperty
  split
  · exact sound_dropped (by decide)
  · simp only
    split
    · rename_i kind tag hp
      split
      · split
        · exact sound_dropped (by decide)
        · exact ⟨hc, kind, tag, hp⟩
        · exact ⟨hc, kind, tag, hp⟩
      · exact ⟨hc, _, hp, .inl ⟨kind, tag, rfl⟩⟩
    · rename_i selector hp
      exact ⟨hc, _, hp, .inr ⟨selector, rfl⟩⟩
    · rename_i item index collection key hp
      split
      · exact ⟨hc, item, index, collection, key, hp⟩
      · exact sound_dropped (by decide)
    · exact sound_dropped (by decide)
    · exact sound_dropped (by decide)

theorem sound_inServer (hc : c.inServer = true) : (inServer t).Sound c t := by
  unfold inServer
  split
  · exact sound_ofForm (by decide) fun _ => hc
  · exact sound_ofForm (drops_malformedRoute _) fun _ => hc
  · exact sound_dropped (by decide)

theorem sound_outside (hc : c.inServer = false) : (outside c t).Sound c t := by
  unfold outside
  cases hk : t.kind with
  | state => exact sound_ofForm (by decide) fun _ => hc
  | fn => exact sound_ofForm (by decide) fun _ => hc
  | server => exact sound_ofForm (by decide) fun _ => hc
  | route verb => exact sound_dropped (by decide)
  | property => exact sound_ofProperty hc
  | pseudo => exact sound_ofPseudo hc hk
  | cond => exact sound_ofMarkup hc ⟨hk, rfl⟩ fun h => h
  | otherwise =>
    -- an `else` needs a condition before it
    by_cases ha : c.afterIf = true
    · simp only [if_pos ha]
      exact ⟨hc, hk, ha⟩
    · simp only [if_neg ha]
      exact sound_dropped (by decide)
  | loop =>
    simp only
    split
    · exact sound_ofMarkup hc ⟨hk, ‹_›⟩ fun h => h
    · exact sound_dropped (by decide)
  | service => exact sound_ofForm (by decide) fun _ => hc
  | use => exact sound_ofForm (by decide) fun _ => hc
  | onMount =>
    simp only
    split
    · exact hc
    · exact sound_dropped (by decide)
  | element =>
    simp only
    split
    · exact sound_ofMarkup hc ⟨hk, rfl⟩ fun h => h
    · exact sound_dropped (by decide)
  | comment => exact drops_unrecognised _
  | unknown => exact drops_unrecognised _

/-- **Every fate is sound.** -/
theorem sound (c : Context) (t : LineToken) : (ofLine c t).Sound c t := by
  unfold ofLine
  by_cases hc : c.inServer = true
  · rw [if_pos hc]; exact sound_inServer hc
  · rw [if_neg hc]; exact sound_outside (Bool.not_eq_true _ |>.mp hc)

end Fate

end Trellis.Document
