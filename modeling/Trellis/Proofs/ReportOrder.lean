import Trellis.Proofs.LiteralBlock
import Trellis.Proofs.Provenance
import Trellis.Proofs.Reports

/-!
# The order of diagnostics

Lines are reported in the order in which they are read, and a body when it is closed; so diagnostics come in the order
of their lines, but for one case.  The reader of a list reports the lines that are no items before it reads the items,
and such a report overtakes those about earlier lines of the items.  `read_diagnostics_order` says that this is the
only way in which two diagnostics can be out of order, and `misplaced_item_overtakes` that it happens.
-/

namespace Trellis

/-- The lines come one after the other. -/
def InOrder (lines : List BodyLine) : Prop := lines.Pairwise fun a b => a.line < b.line

namespace Literal

/-! ### Blocks -/

/-- The first report may come before the second: it is about no later line, or about a line that is no item. -/
def BlockReport.Precedes (b c : BlockReport) : Prop := b.origin.line ≤ c.origin.line ∨ b.fault = .notAnItem

/-- The lines of a block. -/
def origins (es : List Entry) : List BodyLine := es.map (·.origin)

/-- The lines of some items, each with the lines below it. -/
def itemOrigins (items : List Item) : List BodyLine := items.flatMap fun i => i.origin :: origins i.below

/-- Grouping keeps the lines of the items in order, and those of the reports. -/
theorem group_sublist (base : Int) (es : List Entry) :
    (origins (group base es).pending ++ itemOrigins (group base es).items).Sublist (origins es) ∧
      ((group base es).reports.map (·.origin)).Sublist (origins es) ∧
      ∀ b ∈ (group base es).reports, b.fault = .notAnItem := by
  induction es with
  | nil => simp [group, origins, itemOrigins]
  | cons e es ih =>
    obtain ⟨hlines, hreports, hfault⟩ := ih
    simp only [group]
    split
    · exact ⟨hlines.cons_cons e.origin, hreports.cons e.origin, hfault⟩
    · split
      · exact ⟨hlines.cons_cons e.origin, hreports.cons e.origin, hfault⟩
      · exact ⟨hlines.cons e.origin, hreports.cons_cons e.origin, List.forall_mem_cons.mpr ⟨rfl, hfault⟩⟩

/-- Reports about lines in order are in order. -/
theorem precedes_of_inOrder {bs : List BlockReport} (h : InOrder (bs.map (·.origin))) :
    bs.Pairwise BlockReport.Precedes :=
  (List.pairwise_map.mp h).imp fun hlt => .inl (Int.le_of_lt hlt)

/-- Reports about earlier lines precede reports about later ones. -/
theorem precedes_append {bs cs : List BlockReport} {xs ys : List BodyLine} (hb : bs.Pairwise BlockReport.Precedes)
    (hc : cs.Pairwise BlockReport.Precedes) (hxs : ∀ b ∈ bs, b.origin ∈ xs) (hys : ∀ c ∈ cs, c.origin ∈ ys)
    (h : ∀ x ∈ xs, ∀ y ∈ ys, x.line < y.line) : (bs ++ cs).Pairwise BlockReport.Precedes :=
  List.pairwise_append.mpr ⟨hb, hc, fun b hb c hc => .inl (Int.le_of_lt (h _ (hxs b hb) _ (hys c hc)))⟩

theorem origin_mem_entries (es : List Entry) : ∀ b ∈ (readEntries es).2, b.origin ∈ origins es :=
  reports_origins.1 es fun _ he => List.mem_map_of_mem he

theorem origin_mem_pairs (es : List Entry) : ∀ b ∈ (readPairs es).2, b.origin ∈ origins es :=
  reports_origins.2.1 es fun _ he => List.mem_map_of_mem he

theorem mem_itemOrigins {i : Item} {items : List Item} (hi : i ∈ items) :
    i.origin ∈ itemOrigins items ∧ ∀ e ∈ i.below, e.origin ∈ itemOrigins items :=
  ⟨List.mem_flatMap.mpr ⟨i, hi, List.mem_cons_self⟩,
    fun _ he => List.mem_flatMap.mpr ⟨i, hi, List.mem_cons_of_mem _ (List.mem_map_of_mem he)⟩⟩

theorem origin_mem_items (items : List Item) : ∀ b ∈ (readItems items).2, b.origin ∈ itemOrigins items :=
  reports_origins.2.2 items fun _ hi => mem_itemOrigins hi

theorem origin_mem_item (i : Item) : ∀ b ∈ (readItem i).2, b.origin ∈ i.origin :: origins i.below :=
  readItem_reports ⟨List.mem_cons_self, fun _ he => List.mem_cons_of_mem _ (List.mem_map_of_mem he)⟩
    (fun h => reports_origins.1 _ h) (fun h => reports_origins.1 _ h)

/-- The reports of one item, given those of its lines. -/
theorem readItem_precede {i : Item} (h : InOrder (i.origin :: origins i.below))
    (hbelow : InOrder (origins i.below) → (readEntries i.below).2.Pairwise BlockReport.Precedes)
    (hopened : InOrder (origins i.opened) → (readEntries i.opened).2.Pairwise BlockReport.Precedes) :
    (readItem i).2.Pairwise BlockReport.Precedes := by
  have hlines : InOrder (origins i.below) := (List.pairwise_cons.mp h).2
  unfold readItem
  split
  · exact hbelow hlines
  · split
    · refine precedes_of_inOrder ?_
      rw [List.map_map]
      exact hlines
    · exact hopened h

/-- **The reports of a block** whose lines are in order are in order, but for the lines of lists that are no items. -/
theorem reports_precede :
    (∀ es, InOrder (origins es) → (readEntries es).2.Pairwise BlockReport.Precedes) ∧
    (∀ es, InOrder (origins es) → (readPairs es).2.Pairwise BlockReport.Precedes) ∧
    (∀ items, InOrder (itemOrigins items) → (readItems items).2.Pairwise BlockReport.Precedes) := by
  apply block_induction
  case nil =>
    intro _
    simp [readEntries_nil]
  case list =>
    -- the lines that are no items are reported before the items are read
    intro e es hd ih h
    obtain ⟨hlines, hreports, hfault⟩ := group_sublist e.indent (e :: es)
    rw [readEntries_list es hd]
    refine List.pairwise_append.mpr ⟨precedes_of_inOrder (h.sublist hreports), ih ?_, fun b hb c _ => .inr (hfault b hb)⟩
    exact h.sublist ((List.sublist_append_right _ _).trans hlines)
  case object =>
    intro e es hd ih h
    rw [readEntries_object es hd]
    exact ih h
  case noPairs =>
    intro _
    simp [readPairs_nil]
  case pair =>
    intro e es ihbelow ihbeyond h
    obtain ⟨hfirst, hes⟩ := List.pairwise_cons.mp h
    have hsplit : origins es = origins (e.below es) ++ origins (e.beyond es) := by
      rw [origins, origins, origins, ← List.map_append]
      exact congrArg _ List.takeWhile_append_dropWhile.symm
    have hparts : InOrder (origins (e.below es) ++ origins (e.beyond es)) := hsplit ▸ hes
    obtain ⟨hbelow, hbeyond, hcross⟩ := List.pairwise_append.mp hparts
    cases hp : e.isPair with
    | false =>
      -- one report about the line itself, and then those about the lines beyond it
      rw [readPairs_drop es hp]
      refine List.pairwise_cons.mpr ⟨fun b hb => .inl (Int.le_of_lt (hfirst _ ?_)), ihbeyond hbeyond⟩
      show b.origin ∈ origins es
      rw [hsplit]
      exact List.mem_append_right _ (origin_mem_pairs _ b hb)
    | true =>
      by_cases hv : e.value = []
      · -- the value is the block below
        rw [readPairs_nest es hp hv]
        exact precedes_append (ihbelow hbelow) (ihbeyond hbeyond) (origin_mem_entries _) (origin_mem_pairs _) hcross
      · -- the value is on the line, so each line below it is one too many
        rw [readPairs_scalar es hp hv]
        have hunder : ((e.below es).map fun x => (⟨.underKey e.key, x.origin⟩ : BlockReport)).map (·.origin) =
            origins (e.below es) := by
          rw [List.map_map]
          rfl
        refine precedes_append (precedes_of_inOrder (hunder ▸ hbelow)) (ihbeyond hbeyond) (fun b hb => ?_)
          (origin_mem_pairs _) hcross
        obtain ⟨x, hx, rfl⟩ := List.mem_map.mp hb
        exact List.mem_map_of_mem hx
  case noItems =>
    intro _
    simp [readItems_nil]
  case item =>
    intro i is ihbelow ihopened ihrest h
    -- the lines of an item come before those of the items behind it
    have hsplit : itemOrigins (i :: is) = (i.origin :: origins i.below) ++ itemOrigins is := List.flatMap_cons
    rw [hsplit] at h
    obtain ⟨hi, his, hcross⟩ := List.pairwise_append.mp h
    rw [readItems_cons]
    exact precedes_append (readItem_precede hi ihbelow ihopened) (ihrest his) (origin_mem_item i) (origin_mem_items is)
      hcross

theorem origins_blockEntries (lines : List BodyLine) : (origins (blockEntries lines)).Sublist lines := by
  induction lines with
  | nil => exact .slnil
  | cons l ls ih =>
    unfold blockEntries
    rw [List.filterMap_cons]
    split
    · exact ih.cons l
    · rename_i e he
      split at he
      · cases he
      · cases he
        exact ih.cons_cons l

theorem readBlock_precede {lines : List BodyLine} (h : InOrder lines) :
    (readBlock lines).2.Pairwise BlockReport.Precedes :=
  reports_precede.1 (blockEntries lines) (h.sublist (origins_blockEntries lines))

end Literal

namespace Document

variable {filename : Option Text} {r : Reading} {t : LineToken} {ts : List LineToken} {c : Capture}

/-! ### Bodies -/

/-- Both diagnostics are about lines of one literal block, and the first is about a line of a list that is no item. -/
def Overtakes (filename : Option Text) (lines : List BodyLine) (d e : Diagnostic) : Prop :=
  (∃ x ∈ lines, d = (Problem.block .notAnItem).diagnose filename x.line x.raw) ∧
    ∃ y ∈ lines, ∃ fault, e = (Problem.block fault).diagnose filename y.line y.raw

/-- The first diagnostic may come before the second: it is about no later line, or it overtakes it in the body of a
route. -/
def MayPrecede (filename : Option Text) (cs : List Capture) (d e : Diagnostic) : Prop :=
  d.line ≤ e.line ∨
    ∃ c ∈ cs, (∃ verb name path smart, c.head = .route verb name path smart) ∧ Overtakes filename c.lines d e

theorem readMethods_order (filename : Option Text) {lines : List BodyLine} (h : InOrder lines) :
    (Reading.readMethods filename lines).2.Pairwise fun d e => d.line ≤ e.line := by
  induction lines with
  | nil => exact .nil
  | cons l ls ih =>
    obtain ⟨hl, hls⟩ := List.pairwise_cons.mp h
    simp only [Reading.readMethods]
    split
    · exact ih hls
    · split
      · exact ih hls
      · refine List.pairwise_cons.mpr ⟨fun d hd => ?_, ih hls⟩
        obtain ⟨l', hl', p, -, rfl⟩ := Reading.readMethods_fromBody ls d hd
        exact Int.le_of_lt (hl l' hl')

/-- What a capture reports is in order, but for what overtakes in the body of a route. -/
theorem Capture.diagnostics_order (h : InOrder c.lines) :
    (c.diagnostics filename).Pairwise (MayPrecede filename [c]) := by
  unfold Capture.diagnostics
  cases hh : c.head with
  | function name parameters => exact .nil
  | mount => exact .nil
  | service name baseUrl => exact (readMethods_order filename h).imp fun hle => .inl hle
  | route verb name path smart =>
    have hmem : ∀ b ∈ (Statement.readRouteBody filename c.lines).2, b.origin ∈ c.lines :=
      fun b hb => (Reading.cutAtReturn_sublist c.lines).mem (Literal.readBlock_reports hb)
    have hprecede := Literal.readBlock_precede (h.sublist (Reading.cutAtReturn_sublist c.lines))
    refine List.pairwise_map.mpr (hprecede.imp_of_mem fun {b b'} hb hb' hbb' => ?_)
    refine hbb'.imp_right fun hfault => ⟨c, List.mem_singleton_self c, ⟨verb, name, path, smart, hh⟩, ?_⟩
    exact ⟨⟨b.origin, hmem b hb, by rw [hfault]⟩, b'.origin, hmem b' hb', b'.fault, rfl⟩

/-! ### Runs -/

theorem MayPrecede.mono {cs cs' : List Capture} (hcs : ∀ c ∈ cs, c ∈ cs') {d e : Diagnostic}
    (h : MayPrecede filename cs d e) : MayPrecede filename cs' d e :=
  h.imp_right fun ⟨c, hc, hrest⟩ => ⟨c, hcs c hc, hrest⟩

theorem mayPrecede_append {cs : List Capture} {ds es : List Diagnostic} (hds : ds.Pairwise (MayPrecede filename cs))
    (hes : es.Pairwise (MayPrecede filename cs)) (h : ∀ d ∈ ds, ∀ e ∈ es, d.line ≤ e.line) :
    (ds ++ es).Pairwise (MayPrecede filename cs) :=
  List.pairwise_append.mpr ⟨hds, hes, fun d hd e he => .inl (h d hd e he)⟩

/-- What a line that is not taken reports: what the open capture does, then what is about the line itself. -/
theorem step_reports (filename : Option Text) (h : r.takes t = false) :
    ∃ own, (r.step filename t).diagnostics = (r.closeCapture filename).diagnostics ++ own ∧
      ∀ d ∈ own, d.line = t.line := by
  by_cases hk : t.kind = .comment
  · rw [Reading.step_comment filename h hk]
    exact ⟨[], (List.append_nil _).symm, by simp⟩
  · refine ⟨_, Reading.step_line_diagnostics h hk, fun d hd => ?_⟩
    obtain ⟨p, -, rfl⟩ := List.mem_map.mp hd
    rfl

/-- What the open capture reports. -/
theorem pendingReports_order (filename : Option Text) (hheld : InOrder r.heldLines) :
    (r.pendingReports filename).Pairwise (MayPrecede filename r.capture.toList) ∧
      ∀ d ∈ r.pendingReports filename, ∃ l ∈ r.heldLines, d.line = l.line := by
  constructor
  · unfold Reading.pendingReports
    unfold Reading.heldLines at hheld
    cases hc : r.capture with
    | none => exact .nil
    | some c =>
      rw [hc] at hheld
      simpa using Capture.diagnostics_order hheld
  · intro d hd
    obtain ⟨l, hl, p, -, rfl⟩ := Reading.pendingReports_fromBody filename r d hd
    exact ⟨l, hl, rfl⟩

/-- The lines that the open capture holds and the lines that come are in order. -/
structure LinesAhead (r : Reading) (ts : List LineToken) : Prop where
  held : InOrder r.heldLines
  between : ∀ l ∈ r.heldLines, ∀ t ∈ ts, l.line < t.line
  coming : ts.Pairwise fun a b => a.line < b.line

theorem LinesAhead.take (filename : Option Text) (h : LinesAhead r (t :: ts)) (ht : r.takes t = true) :
    LinesAhead (r.step filename t) ts := by
  obtain ⟨hfirst, hts⟩ := List.pairwise_cons.mp h.coming
  rw [Reading.step_takes filename ht]
  refine ⟨?_, fun l hl u hu => ?_, hts⟩
  · rw [Reading.heldLines_take ht]
    refine List.pairwise_append.mpr ⟨h.held, List.pairwise_singleton _ _, fun l hl l' hl' => ?_⟩
    obtain rfl := List.mem_singleton.mp hl'
    exact h.between l hl t List.mem_cons_self
  · rw [Reading.heldLines_take ht] at hl
    obtain hl | hl := List.mem_append.mp hl
    · exact h.between l hl u (List.mem_cons_of_mem _ hu)
    · obtain rfl := List.mem_singleton.mp hl
      exact Int.ofNat_lt.mpr (hfirst u hu)

theorem LinesAhead.pass (filename : Option Text) (h : LinesAhead r (t :: ts)) (ht : r.takes t = false) :
    LinesAhead (r.step filename t) ts := by
  have hnone : (r.step filename t).heldLines = [] := Reading.heldLines_step ht
  refine ⟨?_, ?_, (List.pairwise_cons.mp h.coming).2⟩
  · rw [hnone]
    exact .nil
  · rw [hnone]
    exact nofun

/-- What is reported from a reading on, up to the end of the lines:  in order, but for what overtakes in the bodies of
routes. -/
structure ReportedBy (filename : Option Text) (r : Reading) (ts : List LineToken) (ds : List Diagnostic) : Prop where
  diagnostics : ((ts.foldl (Reading.step filename) r).closeCapture filename).diagnostics = r.diagnostics ++ ds
  order : ds.Pairwise (MayPrecede filename (captures filename r ts))
  about : ∀ d ∈ ds, (∃ l ∈ r.heldLines, d.line = l.line) ∨ ∃ t ∈ ts, d.line = t.line

variable {ds : List Diagnostic}

/-- A line that is taken reports nothing. -/
theorem ReportedBy.take (ht : r.takes t = true) (h : ReportedBy filename (r.step filename t) ts ds) :
    ReportedBy filename r (t :: ts) ds := by
  have hstep := Reading.step_takes filename ht
  refine ⟨?_, ?_, fun d hd => ?_⟩
  · rw [List.foldl_cons, h.diagnostics, hstep]
    rfl
  · rw [captures_of_taken ht]
    exact h.order
  · obtain ⟨l, hl, hd⟩ | ⟨u, hu, hd⟩ := h.about d hd
    · -- the line is held from now on, and it was to come before
      rw [hstep, Reading.heldLines_take ht] at hl
      obtain hl | hl := List.mem_append.mp hl
      · exact .inl ⟨l, hl, hd⟩
      · obtain rfl := List.mem_singleton.mp hl
        exact .inr ⟨t, List.mem_cons_self, hd⟩
    · exact .inr ⟨u, List.mem_cons_of_mem _ hu, hd⟩

/-- Behind a line that is not taken, nothing is reported about lines before. -/
theorem ReportedBy.coming (ht : r.takes t = false) (h : ReportedBy filename (r.step filename t) ts ds) :
    ∀ d ∈ ds, ∃ u ∈ ts, d.line = u.line := by
  intro d hd
  obtain ⟨l, hl, -⟩ | hcoming := h.about d hd
  · rw [Reading.heldLines_step ht] at hl
    cases hl
  · exact hcoming

/-- A line that is not taken reports what the open capture does, and then what is about the line itself. -/
theorem ReportedBy.pass (hahead : LinesAhead r (t :: ts)) (ht : r.takes t = false)
    (h : ReportedBy filename (r.step filename t) ts ds) : ∃ ds', ReportedBy filename r (t :: ts) ds' := by
  obtain ⟨own, hstep, hown⟩ := step_reports filename ht
  obtain ⟨hclosing, hlines⟩ := pendingReports_order filename hahead.held
  have hcoming := h.coming ht
  have hearlier : ∀ d ∈ r.pendingReports filename, d.line < (t.line : Int) := by
    intro d hd
    obtain ⟨l, hl, hdl⟩ := hlines d hd
    rw [hdl]
    exact hahead.between l hl t List.mem_cons_self
  have hlater : ∀ d ∈ ds, (t.line : Int) < d.line := by
    intro d hd
    obtain ⟨u, hu, hdu⟩ := hcoming d hd
    rw [hdu]
    exact Int.ofNat_lt.mpr ((List.pairwise_cons.mp hahead.coming).1 u hu)
  refine ⟨r.pendingReports filename ++ (own ++ ds), ?_, ?_, fun d hd => ?_⟩
  · rw [List.foldl_cons, h.diagnostics, hstep, Reading.closeCapture_diagnostics]
    simp
  · -- the three parts are about earlier lines, this line and later lines
    rw [captures_of_not_taken ht]
    have hsame : own.Pairwise (MayPrecede filename (r.capture.toList ++ captures filename (r.step filename t) ts)) :=
      List.pairwise_of_forall_mem_list fun d hd e he => .inl (Int.le_of_eq ((hown d hd).trans (hown e he).symm))
    refine mayPrecede_append (hclosing.imp (MayPrecede.mono fun c => List.mem_append_left _))
      (mayPrecede_append hsame (h.order.imp (MayPrecede.mono fun c => List.mem_append_right _)) fun d hd e he => ?_)
      fun d hd e he => ?_
    · rw [hown d hd]
      exact Int.le_of_lt (hlater e he)
    · refine Int.le_trans (Int.le_of_lt (hearlier d hd)) ?_
      obtain he | he := List.mem_append.mp he
      · exact Int.le_of_eq (hown e he).symm
      · exact Int.le_of_lt (hlater e he)
  · obtain hd | hd := List.mem_append.mp hd
    · exact .inl (hlines d hd)
    · obtain hd | hd := List.mem_append.mp hd
      · exact .inr ⟨t, List.mem_cons_self, hown d hd⟩
      · obtain ⟨u, hu, hdu⟩ := hcoming d hd
        exact .inr ⟨u, List.mem_cons_of_mem _ hu, hdu⟩

/-- **The reports of a run** about lines in order. -/
theorem exists_reportedBy (filename : Option Text) (h : LinesAhead r ts) : ∃ ds, ReportedBy filename r ts ds := by
  induction ts generalizing r with
  | nil =>
    obtain ⟨horder, hlines⟩ := pendingReports_order filename h.held
    refine ⟨_, Reading.closeCapture_diagnostics filename r, ?_, fun d hd => .inl (hlines d hd)⟩
    rw [captures_nil]
    exact horder
  | cons t ts ih =>
    cases ht : r.takes t with
    | true =>
      obtain ⟨ds, hds⟩ := ih (h.take filename ht)
      exact ⟨ds, hds.take ht⟩
    | false =>
      obtain ⟨ds, hds⟩ := ih (h.pass filename ht)
      exact hds.pass h ht

/-- **Diagnostics come in source order**, but for one case: in the literal block of a route, a report about a line that
is no item of its list may come before reports about earlier lines. -/
theorem read_diagnostics_order (filename : Option Text) (source : Text) :
    (read filename source).diagnostics.Pairwise fun d e =>
      d.line ≤ e.line ∨
        ∃ before t after verb name path smart, LineToken.tokenize source = before ++ t :: after ∧
          (Reading.run filename before).addition? filename t = some (.capture (.route verb name path smart)) ∧
          Overtakes filename ((after.takeWhile (t.indent < ·.indent)).map LineToken.toBodyLine) d e := by
  have hts := LineToken.pairwise_tokenize source
  obtain ⟨ds, hds, horder, -⟩ := exists_reportedBy (r := {}) filename ⟨.nil, nofun, hts⟩
  have hread : (read filename source).diagnostics = ds :=
    (Reading.closeServer_diagnostics (r := _)).trans hds
  rw [hread]
  refine horder.imp fun {d e} hde => hde.imp_right ?_
  rintro ⟨c, hc, ⟨verb, name, path, smart, hhead⟩, hover⟩
  obtain ⟨k, hk, ha, -, hlines⟩ := mem_captures rfl hc
  obtain ⟨before, hsplit, hadd⟩ := mem_contributions_iff.mp hk
  rw [ha, hhead] at hadd
  rw [hlines] at hover
  exact ⟨before, k.line, k.behind, verb, name, path, smart, hsplit, hadd, hover⟩

/-- Diagnostics do not always come in source order: the list has a line that is no item behind an item with a line too
many, and it is reported first. -/
theorem misplaced_item_overtakes :
    (read none "server A\n  get h /h\n    return\n      - a\n        x\n      b").diagnostics.map (·.line) = [6, 5] := by
  decide +kernel

end Document

end Trellis
