import Trellis.Proofs.DeclaringLines
import Trellis.Proofs.Notices

/-!
# The outline of a document

An outline is a forest of symbols.  `Symbol.visitsAll` goes through it in pre-order, and says of each symbol which
symbols it is in.

* Conditions and loops are transparent: the visits of the element symbols are those of the elements, with the elements
  among the nodes above (`visitsAll_nodesSymbols`).  So nothing is dropped, listed twice or moved to another parent.
* Every symbol is that of a definition, in order (`listed_outline`), and a definition is where the line is that declares
  it, so that its symbol covers the text of that line (`shows_of_declaredBy`).
-/

namespace Trellis

/-- How many elements the node is in. -/
def Node.Visit.elementDepth (v : Node.Visit) : Nat := v.above.countP Node.isElement

namespace Editor

/-! ### Symbols in their places -/

namespace Symbol

def name : Symbol → Text
  | .mk name _ _ _ _ => name

def kind : Symbol → SymbolKind
  | .mk _ kind _ _ _ => kind

def range : Symbol → Range
  | .mk _ _ _ range _ => range

def children : Symbol → List Symbol
  | .mk _ _ _ _ children => children

def isElement (s : Symbol) : Bool := s.kind = .element

/-- A symbol in its place: the symbols that it is in, innermost first, and the symbol. -/
structure Visit where
  above : List Symbol
  symbol : Symbol

/-- How many element symbols the symbol is in. -/
def Visit.elementDepth (v : Visit) : Nat := v.above.countP isElement

mutual

/-- The visits of a symbol and of the symbols below it, in pre-order, when the symbol is in `above`. -/
def visits (above : List Symbol) : Symbol → List Visit
  | .mk name kind detail range cs =>
    ⟨above, .mk name kind detail range cs⟩ :: visitsAll (.mk name kind detail range cs :: above) cs

/-- The visits of the symbols of a forest in `above`. -/
def visitsAll (above : List Symbol) : List Symbol → List Visit
  | [] => []
  | s :: ss => visits above s ++ visitsAll above ss

end

theorem visits_eq (above : List Symbol) (s : Symbol) :
    s.visits above = ⟨above, s⟩ :: visitsAll (s :: above) s.children := by
  cases s
  rfl

theorem visitsAll_append (above ss ss' : List Symbol) :
    visitsAll above (ss ++ ss') = visitsAll above ss ++ visitsAll above ss' := by
  induction ss with
  | nil => rfl
  | cons s ss ih => rw [List.cons_append, visitsAll, visitsAll, ih, List.append_assoc]

theorem visitsAll_singleton (above : List Symbol) (s : Symbol) :
    visitsAll above [s] = ⟨above, s⟩ :: visitsAll (s :: above) s.children := by
  rw [visitsAll, visitsAll, List.append_nil, visits_eq]

end Symbol

section Symbols

variable {lines : List Text} (name : Text) (kind : SymbolKind) (l : Location) (detail : Option Text)
  (cs : List Symbol)

@[simp] theorem symbolAt_name : (symbolAt lines name kind (some l) detail cs).name = name := rfl
@[simp] theorem symbolAt_kind : (symbolAt lines name kind (some l) detail cs).kind = kind := rfl

end Symbols

/-! ### Elements -/

/-- The symbol of a node that is an element. -/
def elementSymbol? (lines : List Text) : Node → Option Symbol
  | .element kind tag _ cs l => some (symbolAt lines kind .element (some l) tag (nodesSymbols lines cs))
  | _ => none

/-- The visit of the symbol of an element, behind the symbols of the elements that it is in. -/
def elementVisit? (lines : List Text) (v : Node.Visit) : Option Symbol.Visit :=
  (elementSymbol? lines v.node).map fun s => ⟨v.above.filterMap (elementSymbol? lines), s⟩

/-- An element has one symbol, which holds those of its children; any other node has the symbols of its children. -/
theorem nodeSymbols_eq (lines : List Text) (n : Node) :
    (∃ s, elementSymbol? lines n = some s ∧ nodeSymbols lines n = [s] ∧ s.children = nodesSymbols lines n.children) ∨
      (elementSymbol? lines n = none ∧ nodeSymbols lines n = nodesSymbols lines n.children) := by
  cases n with
  | element kind tag ps cs l => exact .inl ⟨_, rfl, rfl, rfl⟩
  | pseudo selector ps l => exact .inr ⟨rfl, rfl⟩
  | condition branch cs l => exact .inr ⟨rfl, rfl⟩
  | loop item index collection key cs l => exact .inr ⟨rfl, rfl⟩

/-- **Conditions and loops are transparent.**  The visits of the symbols of a forest are those of its elements. -/
theorem visitsAll_nodesSymbols (lines : List Text) (ns above : List Node) :
    Symbol.visitsAll (above.filterMap (elementSymbol? lines)) (nodesSymbols lines ns) =
      (Node.visitsAll above ns).filterMap (elementVisit? lines) := by
  induction ns using Node.forest_induction generalizing above with
  | nil => rfl
  | cons n ns ihn ihs =>
    have hchildren := ihn (n :: above)
    rw [nodesSymbols, Symbol.visitsAll_append, ihs above, Node.visitsAll_cons, List.filterMap_cons,
      List.filterMap_append]
    obtain ⟨s, hs, hsymbols, hcs⟩ | ⟨hs, hsymbols⟩ := nodeSymbols_eq lines n
    · rw [List.filterMap_cons_some hs] at hchildren
      rw [hsymbols, Symbol.visitsAll_singleton, hcs, hchildren]
      simp only [elementVisit?, hs, Option.map_some, List.cons_append]
    · rw [List.filterMap_cons_none hs] at hchildren
      rw [hsymbols, hchildren]
      simp only [elementVisit?, hs, Option.map_none]

theorem isElement_elementSymbol? (lines : List Text) (n : Node) :
    ((elementSymbol? lines n).map Symbol.isElement).getD false = n.isElement := by
  cases n <;> rfl

theorem countP_elementSymbols (lines : List Text) (ns : List Node) :
    (ns.filterMap (elementSymbol? lines)).countP Symbol.isElement = ns.countP Node.isElement := by
  rw [List.countP_filterMap]
  exact congrArg (List.countP · ns) (funext (isElement_elementSymbol? lines))

/-- The visit of the symbol of an element shows the kind and the depth of the element. -/
theorem elementVisit?_shows (lines : List Text) (v : Node.Visit) :
    ((elementVisit? lines v).filter (·.symbol.isElement)).map (fun s => (s.symbol.name, s.elementDepth)) =
      v.node.definition?.map fun x => (x.name, v.elementDepth) := by
  obtain ⟨above, n⟩ := v
  cases n with
  | element kind tag ps cs l =>
    have hdepth := countP_elementSymbols lines above
    simp [elementVisit?, elementSymbol?, Node.definition?, Symbol.isElement, Symbol.Visit.elementDepth,
      Node.Visit.elementDepth, hdepth]
  | _ => rfl

/-! ### Definitions -/

/-- The symbol has the name and the kind of the definition, and is made for its place. -/
def Symbol.IsAt (lines : List Text) (s : Symbol) (x : Definition) : Prop :=
  ∃ detail cs, s = symbolAt lines x.name x.kind (some x.location) detail cs

/-- The symbols of a forest are, in pre-order, those of the definitions. -/
def Listed (lines : List Text) (above ss : List Symbol) (xs : List Definition) : Prop :=
  List.Forall₂ (fun v x => v.symbol.IsAt lines x) (Symbol.visitsAll above ss) xs

section Listed

variable {lines : List Text} {above ss ss' : List Symbol} {xs xs' : List Definition}

theorem Listed.append (h : Listed lines above ss xs) (h' : Listed lines above ss' xs') :
    Listed lines above (ss ++ ss') (xs ++ xs') := by
  unfold Listed
  rw [Symbol.visitsAll_append]
  exact List.rel_append h h'

/-- A symbol comes before the symbols in it. -/
theorem listed_symbolAt (x : Definition) (detail : Option Text) {cs : List Symbol}
    (h : ∀ above, Listed lines above cs xs) :
    Listed lines above [symbolAt lines x.name x.kind (some x.location) detail cs] (x :: xs) := by
  unfold Listed
  rw [Symbol.visitsAll_singleton]
  exact .cons ⟨detail, cs, rfl⟩ (h _)

theorem listed_flatMap {α : Type} {f : α → Symbol} {g : α → List Definition}
    (h : ∀ a, Listed lines above [f a] (g a)) (as : List α) : Listed lines above (as.map f) (as.flatMap g) := by
  induction as with
  | nil => exact .nil
  | cons a as ih =>
    rw [List.map_cons, List.flatMap_cons, ← List.singleton_append]
    exact (h a).append ih

theorem listed_nil : Listed lines above [] [] := .nil

/-- Symbols with nothing in them. -/
theorem listed_map {α : Type} (name : α → Text) (kind : SymbolKind) (location : α → Location)
    (detail : α → Option Text) (as : List α) :
    Listed lines above (as.map fun a => symbolAt lines (name a) kind (some (location a)) (detail a) [])
      (as.map fun a => ⟨kind, name a, location a⟩) := by
  rw [List.map_eq_flatMap (f := fun a => Definition.mk kind (name a) (location a))]
  refine listed_flatMap (fun a => ?_) as
  exact listed_symbolAt ⟨kind, name a, location a⟩ (detail a) fun _ => listed_nil

end Listed

/-- The symbols of an outline in front of those of the elements. -/
def declaredSymbols (lines : List Text) (s : Script) : List Symbol :=
  s.aliases.map (fun a => symbolAt lines a.name .reference (some a.location) (some a.source) []) ++
    s.state.map (fun v =>
      symbolAt lines v.name .state (some v.location) (some (v.typeName ++ " = " ++ v.value)) []) ++
    s.functions.map (fun f =>
      symbolAt lines f.name .function (some f.location) (some ("(" ++ Text.join ", " f.parameters ++ ")")) []) ++
    s.services.map (serviceSymbol lines) ++
    s.mount.toList.map (fun m => symbolAt lines "onMount" .mount (some m.location) none []) ++
    s.server.toList.map (serverSymbol lines)

theorem outline_eq (lines : List Text) (d : Document) :
    outline lines d = declaredSymbols lines d.script ++ nodesSymbols lines d.children := rfl

variable (lines : List Text)

theorem listed_serviceSymbol (above : List Symbol) (v : ServiceDecl) :
    Listed lines above [serviceSymbol lines v]
      (⟨.service, v.name, v.location⟩ :: v.methods.map fun m => ⟨.method, m.name, m.location⟩) := by
  apply listed_symbolAt ⟨.service, v.name, v.location⟩
  intro above
  exact listed_map _ _ _ _ v.methods

theorem listed_serverSymbol (above : List Symbol) (s : Server) :
    Listed lines above [serverSymbol lines s]
      (⟨.server, s.name, s.location⟩ ::
        (s.state.map (fun v => ⟨.state, v.name, v.location⟩) ++
          s.routes.map fun r => ⟨.route, r.name, r.location⟩)) := by
  apply listed_symbolAt ⟨.server, s.name, s.location⟩
  intro above
  exact (listed_map _ _ _ _ s.state).append (listed_map _ _ _ _ s.routes)

theorem listed_declaredSymbols (d : Document) : Listed lines [] (declaredSymbols lines d.script) d.declarations := by
  unfold declaredSymbols Document.declarations
  refine .append (.append (.append (.append (.append ?_ ?_) ?_) ?_) ?_) ?_
  · exact listed_map _ _ _ _ d.script.aliases
  · exact listed_map _ _ _ _ d.script.state
  · exact listed_map _ _ _ _ d.script.functions
  · exact listed_flatMap (listed_serviceSymbol lines []) d.script.services
  · exact listed_map _ _ _ _ d.script.mount.toList
  · exact listed_flatMap (listed_serverSymbol lines []) d.script.server.toList

theorem listed_nodesSymbols (d : Document) :
    Listed lines [] (nodesSymbols lines d.children) (d.visits.filterMap (·.node.definition?)) := by
  have hvisits := visitsAll_nodesSymbols lines d.children []
  unfold Listed
  rw [show Symbol.visitsAll [] (nodesSymbols lines d.children) = _ from hvisits]
  refine List.rel_filterMap (R := (· = ·)) ?_ (List.forall₂_same.mpr fun _ _ => rfl)
  rintro ⟨above, n⟩ _ rfl
  cases n with
  | element kind tag ps cs l => exact .some ⟨tag, nodesSymbols lines cs, rfl⟩
  | _ => exact .none

/-- **Every symbol is that of a definition**, in order. -/
theorem listed_outline (d : Document) : Listed lines [] (outline lines d) d.definitions := by
  rw [outline_eq]
  exact (listed_declaredSymbols lines d).append (listed_nodesSymbols lines d)

/-! ### Ranges -/

/-- The range of a symbol at the first character of a line. -/
theorem range_symbolAt {lines : List Text} {n : Nat} {raw : Text} (name : Text) (kind : SymbolKind)
    (filename : Option Text) (detail : Option Text) (cs : List Symbol) (hn : lines[n]? = some raw)
    (hraw : Text.trim raw ≠ []) :
    (symbolAt lines name kind (some ⟨(n + 1 : Nat), indentOf raw + 1, filename⟩) detail cs).range =
      Range.ofLine n raw := by
  have hpos : 0 < (Text.trim raw).length := List.length_pos_iff.mpr hraw
  have hline : max 0 (((n + 1 : Nat) : Int) - 1) = n := by omega
  have hstart : max 0 ((indentOf raw : Int) + 1 - 1) = indentOf raw := by omega
  have hget : lines.getD n [] = raw := by rw [List.getD_eq_getElem?_getD, hn, Option.getD_some]
  unfold symbolAt Symbol.range Range.ofLine
  simp only [hline, hstart, Int.toNat_natCast, hget, Text.length_trimEnd hraw, Range.mk.injEq, true_and]
  omega

/-- The symbol shows the definition: it has its name and its kind, and its range is on the line of the source that
declares the definition, and covers that line without the blanks around it. -/
structure Symbol.Shows (filename : Option Text) (source : Text) (s : Symbol) (x : Definition) : Prop where
  name : s.name = x.name
  kind : s.kind = x.kind
  line : ∃ t ∈ LineToken.tokenize source, t.Declares x.name x.kind ∧ x.location = Document.Reading.locate filename t ∧
    (Text.lines source)[t.line - 1]? = some t.raw ∧ s.range = .ofLine (t.line - 1) t.raw ∧
    s.range.Covers (Text.lines source) (Text.trim t.raw)

theorem shows_of_declaredBy {filename : Option Text} {source : Text} {s : Symbol} {x : Definition}
    (hs : s.IsAt (Text.lines source) x) (hx : Document.DeclaredBy filename (LineToken.tokenize source) x) :
    s.Shows filename source x := by
  obtain ⟨detail, cs, rfl⟩ := hs
  obtain ⟨t, ht, hdeclares, hlocation⟩ := hx
  obtain ⟨n, hline, hn, hblank⟩ := LineToken.exists_line_of_mem_tokenize ht
  have hraw := trim_ne_nil_of_not_blank hblank
  have hindent : t.indent = indentOf t.raw := by
    rw [LineToken.eq_classify_of_mem ht, LineToken.classify_indent, LineToken.classify_raw]
  have hnumber : t.line - 1 = n := by omega
  have hrange : (symbolAt (Text.lines source) x.name x.kind (some x.location) detail cs).range = .ofLine n t.raw := by
    rw [hlocation, Document.Reading.locate, hline, hindent]
    exact range_symbolAt _ _ _ _ _ hn hraw
  refine ⟨rfl, rfl, t, ht, hdeclares, hlocation, ?_⟩
  rw [hnumber, hrange]
  exact ⟨hn, rfl, Range.covers_ofLine hn hraw⟩

/-! ### Outlines -/

/-- None of the symbols in front of those of the elements is that of an element. -/
theorem filter_declaredSymbols (d : Document) :
    (Symbol.visitsAll [] (declaredSymbols lines d.script)).filter (·.symbol.isElement) = [] := by
  refine List.filter_eq_nil_iff.mpr fun v hv helement => ?_
  obtain ⟨x, hx, detail, cs, hs⟩ := exists_mem_of_forall₂ (listed_declaredSymbols lines d) hv
  have hkind : v.symbol.kind = x.kind := by rw [hs, symbolAt_kind]
  exact Document.kind_ne_element hx (hkind.symm.trans (of_decide_eq_true helement))

/-- The element symbols of an outline, in pre-order, show the elements of the document. -/
theorem elements_outline (d : Document) :
    ((Symbol.visitsAll [] (outline lines d)).filter (·.symbol.isElement)).map
        (fun v => (v.symbol.name, v.elementDepth)) =
      d.visits.filterMap fun v => v.node.definition?.map fun x => (x.name, v.elementDepth) := by
  have helements : Symbol.visitsAll [] (nodesSymbols lines d.children) = d.visits.filterMap (elementVisit? lines) :=
    visitsAll_nodesSymbols lines d.children []
  rw [outline_eq, Symbol.visitsAll_append, List.filter_append, filter_declaredSymbols, List.nil_append, helements,
    List.filter_filterMap, List.map_filterMap]
  exact congrArg (List.filterMap · d.visits) (funext (elementVisit?_shows lines))

/-- **The outline is the tree of the elements, with conditions and loops made transparent.**  For every source, the
element symbols in pre-order are the elements of the document in pre-order, one for each, named by its kind, and a
symbol is in as many element symbols as its element is in elements.  All symbols are, in pre-order, those of the
definitions of the document, and each covers the trimmed text of the line that declares its definition. -/
theorem symbols_outline (uri source : Text) :
    ((Symbol.visitsAll [] (symbols uri source)).filter (·.symbol.isElement)).map
        (fun v => (v.symbol.name, v.elementDepth)) =
      (Document.read (some uri) source).visits.filterMap
        (fun v => v.node.definition?.map fun x => (x.name, v.elementDepth)) ∧
    List.Forall₂ (fun v x => v.symbol.Shows (some uri) source x)
      (Symbol.visitsAll [] (symbols uri source)) (Document.read (some uri) source).definitions := by
  refine ⟨elements_outline (Text.lines source) (Document.read (some uri) source), ?_⟩
  have hdeclared : ∀ x ∈ (Document.read (some uri) source).definitions,
      Document.DeclaredBy (some uri) (LineToken.tokenize source) x := fun x hx => Document.mem_definitions hx
  have hlisted := (listed_outline (Text.lines source) (Document.read (some uri) source)).flip
  refine (((List.forall₂_and_left _ _).mpr ⟨hdeclared, hlisted⟩).imp ?_).flip
  rintro x v ⟨hx, hs⟩
  exact shows_of_declaredBy hs hx

example : (Symbol.visitsAll [] (symbols "a" "state int n = 0\nBox\n if n  \n  loop i in n\n   Text # t \n Box")).map
    (fun v => (v.symbol.range, v.elementDepth)) =
      [(⟨0, 0, 15⟩, 0), (⟨1, 0, 3⟩, 0), (⟨4, 3, 11⟩, 1), (⟨5, 1, 4⟩, 1)] := by
  decide +kernel

end Editor

end Trellis
