import Mathlib.Data.List.Nodup
import Trellis.Proofs.BlockLayout
import Trellis.Proofs.Names
import Trellis.Proofs.UrlTemplate

/-!
# The names of a client method

A client method takes the parameters of its endpoint, each once, and has up to three names of its own: `data` for a body
without named parameters, `query` for named parameters that travel in the query, and `res`.  A parameter with one of
these names makes two bindings of one name, and is the only thing that does (`methodLines_names`).  What the URL
interpolates are the parameters of the path, and the query.
-/

namespace Trellis

/-! ### Lists in the text of a line -/

theorem Text.not_mem_join {c : Char} {sep : Text} {ts : List Text} (hsep : c ∉ sep) (h : ∀ t ∈ ts, c ∉ t) :
    c ∉ Text.join sep ts := by
  induction ts with
  | nil => exact List.not_mem_nil
  | cons t ts ih =>
    obtain ⟨ht, hts⟩ := List.forall_mem_cons.mp h
    cases ts with
    | nil =>
      rw [Text.join, List.intercalate_singleton]
      exact ht
    | cons u ts =>
      rw [Text.join, List.intercalate_cons_cons]
      simp only [List.mem_append, not_or]
      exact ⟨⟨ht, hsep⟩, ih hts⟩

namespace Form

variable {n t : Text} {ns : List Text}

/-- A name is one parameter. -/
theorem parameters_name_append (hne : n ≠ []) (hn : ∀ c ∈ n, Text.isNamePart c = true) (rest : Text) :
    parameters n = [n] ∧ parameters (n ++ ',' :: rest) = n :: parameters rest := by
  have hcomma : ',' ∉ n := Text.not_mem_of_isNamePart hn (by decide)
  have htrim : Text.trim n = n := Literal.trim_of_isKeyText (Literal.isKeyText_of_isNamePart hne hn)
  have hkeep : (!n.isEmpty) = true := by simpa using hne
  unfold parameters
  rw [Text.splitAt_of_not_mem hcomma, Text.splitAt_append hcomma]
  simp only [List.map_cons, List.map_nil, htrim]
  exact ⟨List.filter_cons_of_pos hkeep, List.filter_cons_of_pos hkeep⟩

theorem parameters_blank (t : Text) : parameters (' ' :: t) = parameters t := by
  have hblank : Text.Blanks [' '] := List.forall_mem_singleton.mpr rfl
  have htrim : ∀ p : Text, Text.trim (' ' :: p) = Text.trim p := Text.trim_blanks_append hblank
  unfold parameters
  rw [Text.splitAt, if_neg (by decide)]
  split
  · next hnil => rw [hnil]; rfl
  · next p ps hcons => rw [hcons, List.map_cons, List.map_cons, htrim]

/-- Names that are written with commas between them read as these names. -/
theorem parameters_join (h : ∀ n ∈ ns, n ≠ [] ∧ ∀ c ∈ n, Text.isNamePart c = true) :
    parameters (Text.join ", " ns) = ns := by
  induction ns with
  | nil => rfl
  | cons n ns ih =>
    obtain ⟨⟨hne, hn⟩, hns⟩ := List.forall_mem_cons.mp h
    cases ns with
    | nil =>
      rw [Text.join, List.intercalate_singleton]
      exact (parameters_name_append hne hn []).1
    | cons k ns =>
      have hjoin : Text.join ", " (n :: k :: ns) = n ++ ',' :: ' ' :: Text.join ", " (k :: ns) := by
        rw [Text.join, List.intercalate_cons_cons, List.append_assoc]
        rfl
      rw [hjoin, (parameters_name_append hne hn _).2, parameters_blank, ih hns]

end Form

namespace Component

/-! ### Names without repetitions -/

theorem mem_distinct {n : Text} (ns : List Text) : n ∈ distinct ns ↔ n ∈ ns := by
  induction ns with
  | nil => rfl
  | cons k ns ih =>
    rw [distinct, List.mem_cons, List.mem_cons, List.mem_filter, ih, decide_eq_true_eq]
    tauto

theorem nodup_distinct (ns : List Text) : (distinct ns).Nodup := by
  induction ns with
  | nil => exact List.nodup_nil
  | cons n ns ih =>
    rw [distinct, List.nodup_cons]
    refine ⟨fun hmem => ?_, ih.filter _⟩
    have hne := (List.mem_filter.mp hmem).2
    exact of_decide_eq_true hne rfl

/-! ### What the lines of a method bind -/

/-- The parameters in the first line of a method. -/
def signatureNames (t : Text) : List Text :=
  ((Text.after? "async " t).map fun r =>
    Form.parameters (((r.dropWhile (· ≠ '(')).drop 1).takeWhile (· ≠ ')'))).getD []

/-- The parameters of the methods among some lines. -/
def parameterNames (ls : List CodeLine) : List Text := ls.flatMap fun l => signatureNames l.text

/-- The parameters and the constants among some lines. -/
def boundNames (ls : List CodeLine) : List Text :=
  parameterNames ls ++ ls.filterMap fun l => Code.constName? " = " l.text

/-- The expressions that lines interpolate. -/
def interpolations (ls : List CodeLine) : List Text := ls.flatMap fun l => holes l.text

/-- The names that a method has besides the parameters of its endpoint. -/
def implicitNames (m : ServiceMethod) : List Text :=
  (if m.verb.sendsBody && m.smartParams.isEmpty then [("data" : Text)] else []) ++
    (if hasQuery m then [("query" : Text)] else []) ++ [("res" : Text)]

def methodHeader (m : ServiceMethod) : Text := "async " ++ m.name ++ "(" ++ Text.join ", " (methodParams m) ++ ") \x7b"

/-- The line that collects the query, if there is one. -/
def queryLines (m : ServiceMethod) : List CodeLine :=
  if hasQuery m then
    [⟨2, "const query = new URLSearchParams(\x7b " ++ Text.join ", " m.smartParams ++ " \x7d)"⟩]
  else []

/-- The lines behind the request. -/
def closingLines : List CodeLine := [⟨2, "return res.json()"⟩, ⟨1, "\x7d,"⟩]

theorem methodLines_eq (baseUrl : Text) (m : ServiceMethod) :
    methodLines baseUrl m = ⟨1, methodHeader m⟩ :: (queryLines m ++ ⟨2, fetchLine baseUrl m⟩ :: closingLines) :=
  rfl

variable {m : ServiceMethod} {t : Text}

theorem signatureNames_eq_nil (h : t.head? ≠ some 'a') : signatureNames t = [] := by
  have hafter : Text.after? "async " t = none := Text.after?_eq_none h
  rw [signatureNames, hafter]
  rfl

theorem holes_eq_nil (h : '`' ∉ t) : holes t = [] := by
  have hnone : t.dropWhile (· ≠ '`') = [] := List.dropWhile_eq_nil_iff.mpr (Text.forall_ne h)
  rw [holes, hnone]
  rfl

/-- The parameters of a method can be written in a signature. -/
theorem isNamePart_methodParams (h : IsEndpoint m.path m.pathParams m.smartParams) :
    ∀ n ∈ methodParams m, n ≠ [] ∧ ∀ c ∈ n, Text.isNamePart c = true := by
  have hparams : ∀ n ∈ distinct m.parameters, n ≠ [] ∧ ∀ c ∈ n, Text.isNamePart c = true :=
    fun n hn => h.isNamePart ((mem_distinct _).mp hn)
  unfold methodParams
  split
  · refine List.forall_mem_append.mpr ⟨hparams, List.forall_mem_singleton.mpr ⟨by decide, ?_⟩⟩
    exact List.all_eq_true.mp (by decide)
  · exact hparams

/-- The first line of a method shows its parameters. -/
theorem signatureNames_header (hname : ∀ c ∈ m.name, Text.isNamePart c = true)
    (h : IsEndpoint m.path m.pathParams m.smartParams) :
    signatureNames (methodHeader m) = methodParams m := by
  have hparams := isNamePart_methodParams h
  have hopen : ∀ c ∈ m.name, decide (c ≠ '(') = true :=
    Text.forall_ne (Text.not_mem_of_isNamePart hname (by decide))
  have hclose : ∀ c ∈ Text.join ", " (methodParams m), decide (c ≠ ')') = true :=
    Text.forall_ne (Text.not_mem_join (by decide) fun n hn => Text.not_mem_of_isNamePart (hparams n hn).2 (by decide))
  have hafter : Text.after? "async " (methodHeader m) =
      some (m.name ++ '(' :: (Text.join ", " (methodParams m) ++ ") \x7b")) := by
    refine Text.after?_eq_some_iff.mpr ?_
    unfold methodHeader
    simp only [List.append_assoc]
    rfl
  have hend : (") \x7b" : Text).takeWhile (· ≠ ')') = [] := rfl
  rw [signatureNames, hafter, Option.map_some, Option.getD_some, List.dropWhile_append_of_pos hopen,
    List.dropWhile_cons_of_neg (by simp), List.drop_one, List.tail_cons, List.takeWhile_append_of_pos hclose, hend,
    List.append_nil, Form.parameters_join hparams]

def queryText (m : ServiceMethod) : Text := if hasQuery m then "?$\x7bquery\x7d" else []

/-- A request has its URL between backticks. -/
theorem exists_fetchLine (baseUrl : Text) (m : ServiceMethod) :
    ∃ after : Text, fetchLine baseUrl m =
      "const " ++ "res" ++
        (" = await fetch(" ++ '`' :: (urlTemplate baseUrl m.path ++ (queryText m ++ '`' :: after))) := by
  let options := fetchOptions m
  let extra : Text := if options.isEmpty then [] else ", \x7b " ++ Text.join ", " options ++ " \x7d"
  refine ⟨extra ++ ")", ?_⟩
  unfold fetchLine
  simp only [List.append_assoc]
  rfl

/-- A request interpolates the parameters of the path, and the query. -/
theorem holes_fetchLine {baseUrl : Text} (hpath : m.pathParams = Form.pathParams m.path)
    (hseam : ¬ (baseUrl.getLast? = some '$' ∧ m.path.head? = some '\x7b')) :
    holes (fetchLine baseUrl m) = m.pathParams ++ if hasQuery m then [("query" : Text)] else [] := by
  obtain ⟨after, hline⟩ := exists_fetchLine baseUrl m
  have hlead : ∀ c ∈ ("const res = await fetch(" : Text), decide (c ≠ '`') = true := List.all_eq_true.mp (by decide)
  have hhead : (queryText m ++ '`' :: after).head? ≠ some '\x7b' := by
    unfold queryText
    split <;> exact fun h => absurd (Option.some.inj h) (by decide)
  have hquery : (readLiteral none (queryText m ++ '`' :: after)).filterMap LiteralPart.hole? =
      if hasQuery m then [("query" : Text)] else [] := by
    unfold queryText
    split <;> rfl
  have hurl : (fetchLine baseUrl m).dropWhile (· ≠ '`') =
      '`' :: (urlTemplate baseUrl m.path ++ (queryText m ++ '`' :: after)) := by
    rw [hline]
    exact (List.dropWhile_append_of_pos hlead).trans (List.dropWhile_cons_of_neg (by simp))
  rw [holes, hurl, List.drop_one, List.tail_cons, readLiteral_urlTemplate hhead hseam]
  simp only [List.filterMap_append, filterMap_hole?_char, filterMap_hole?_pieceParts, hquery, params_pathPieces,
    List.nil_append, hpath]

/-! ### The lines of a method -/

theorem parameterNames_methodLines (hname : ∀ c ∈ m.name, Text.isNamePart c = true)
    (h : IsEndpoint m.path m.pathParams m.smartParams) (baseUrl : Text) :
    parameterNames (methodLines baseUrl m) = methodParams m := by
  have hquery : (queryLines m).flatMap (fun l => signatureNames l.text) = [] := by
    unfold queryLines
    split <;> rfl
  have hfetch : signatureNames (fetchLine baseUrl m) = [] := by
    obtain ⟨after, hline⟩ := exists_fetchLine baseUrl m
    rw [hline]
    exact signatureNames_eq_nil fun h => absurd (Option.some.inj h) (by decide)
  have hend : closingLines.flatMap (fun l => signatureNames l.text) = [] := rfl
  rw [parameterNames, methodLines_eq, List.flatMap_cons, List.flatMap_append, List.flatMap_cons, hquery, hend,
    signatureNames_header hname h, hfetch, List.append_nil, List.append_nil, List.append_nil]

/-- The constants of a method. -/
theorem constants_methodLines (baseUrl : Text) (m : ServiceMethod) :
    (methodLines baseUrl m).filterMap (fun l => Code.constName? " = " l.text) =
      (if hasQuery m then [("query" : Text)] else []) ++ [("res" : Text)] := by
  have hheader : Code.constName? " = " (methodHeader m) = none :=
    Code.constName?_eq_none fun h => absurd (Option.some.inj h) (by decide)
  have hquery : (queryLines m).filterMap (fun l => Code.constName? " = " l.text) =
      if hasQuery m then [("query" : Text)] else [] := by
    unfold queryLines
    split <;> rfl
  have hfetch : Code.constName? " = " (fetchLine baseUrl m) = some ("res" : Text) := by
    obtain ⟨after, hline⟩ := exists_fetchLine baseUrl m
    rw [hline]
    exact Code.constName?_const (List.all_eq_true.mp (by decide)) rfl rfl
  have hend : closingLines.filterMap (fun l => Code.constName? " = " l.text) = [] := rfl
  rw [methodLines_eq, List.filterMap_cons_none (by exact hheader), List.filterMap_append, hquery,
    List.filterMap_cons_some (by exact hfetch), hend]

/-- The lines of a method interpolate what its URL does. -/
theorem interpolations_methodLines {baseUrl : Text} (hname : ∀ c ∈ m.name, Text.isNamePart c = true)
    (h : IsEndpoint m.path m.pathParams m.smartParams)
    (hseam : ¬ (baseUrl.getLast? = some '$' ∧ m.path.head? = some '\x7b')) :
    interpolations (methodLines baseUrl m) = m.pathParams ++ if hasQuery m then [("query" : Text)] else [] := by
  have hnames : ∀ n : Text, (∀ c ∈ n, Text.isNamePart c = true) → '`' ∉ n :=
    fun n hn => Text.not_mem_of_isNamePart hn (by decide)
  -- neither the header nor the line of the query holds a template string
  have hheader : holes (methodHeader m) = [] := by
    have hparams : '`' ∉ Text.join ", " (methodParams m) :=
      Text.not_mem_join (by decide) fun n hn => hnames n (isNamePart_methodParams h n hn).2
    refine holes_eq_nil ?_
    unfold methodHeader
    simp only [List.mem_append, not_or]
    exact ⟨⟨⟨⟨by decide, hnames _ hname⟩, by decide⟩, hparams⟩, by decide⟩
  have hquery : (queryLines m).flatMap (fun l => holes l.text) = [] := by
    have hsmart : '`' ∉ Text.join ", " m.smartParams :=
      Text.not_mem_join (by decide) fun n hn => hnames n (h.isNamePart (List.mem_append_right _ hn)).2
    unfold queryLines
    split
    · refine (List.flatMap_singleton _ _).trans (holes_eq_nil ?_)
      simp only [List.mem_append, not_or]
      exact ⟨⟨by decide, hsmart⟩, by decide⟩
    · rfl
  have hend : closingLines.flatMap (fun l => holes l.text) = [] := rfl
  rw [interpolations, methodLines_eq, List.flatMap_cons, List.flatMap_append, List.flatMap_cons, hheader, hquery, hend,
    holes_fetchLine h.path_params hseam, List.nil_append, List.nil_append, List.append_nil]

/-- What a method binds: the parameters of its endpoint, each once, and its own names. -/
theorem boundNames_methodLines (hname : ∀ c ∈ m.name, Text.isNamePart c = true)
    (h : IsEndpoint m.path m.pathParams m.smartParams) (baseUrl : Text) :
    boundNames (methodLines baseUrl m) = distinct m.parameters ++ implicitNames m := by
  rw [boundNames, parameterNames_methodLines hname h, constants_methodLines, methodParams, implicitNames]
  split <;> simp only [List.append_assoc, List.nil_append]

theorem nodup_implicitNames (m : ServiceMethod) : (implicitNames m).Nodup := by
  unfold implicitNames
  split <;> split <;> decide

/-- **The names that a client method binds**, for a method of a service of a document: each parameter of the endpoint
once, and each name that the method has besides.  So no name is bound twice exactly when no parameter has one of these
names.  The URL interpolates the parameters of the path, all of them bound, and the query, unless the base ends with a
dollar sign and the path starts with a brace. -/
theorem methodLines_names (filename : Option Text) (source : Text) (v : ServiceDecl) (m : ServiceMethod)
    (hv : v ∈ (Document.read filename source).script.services) (hm : m ∈ v.methods) :
    (∃ l ∈ v.body, Form.serviceMethod? l.code = some (m.verb, m.name, m.path, m.smartParams)) ∧
    (∀ n, (boundNames (methodLines v.baseUrl m)).count n =
      (if n ∈ Form.pathParams m.path ++ m.smartParams then 1 else 0) + (if n ∈ implicitNames m then 1 else 0)) ∧
    ((boundNames (methodLines v.baseUrl m)).Nodup ↔
      ∀ n ∈ implicitNames m, n ∉ Form.pathParams m.path ++ m.smartParams) ∧
    (∀ n ∈ Form.pathParams m.path ++ m.smartParams, n ∈ parameterNames (methodLines v.baseUrl m)) ∧
    (¬ (v.baseUrl.getLast? = some '$' ∧ m.path.head? = some '\x7b') →
      interpolations (methodLines v.baseUrl m) =
        Form.pathParams m.path ++ if hasQuery m then [("query" : Text)] else []) := by
  obtain ⟨l, hl, hform, hpath⟩ := Document.method_of_mem_methods hv hm
  obtain ⟨hname, hsmart⟩ := Form.serviceMethod?_names hform
  have hparts := Code.isNamePart_of_mem_name hname
  have hend : IsEndpoint m.path m.pathParams m.smartParams := ⟨hpath, hsmart⟩
  have hbound := boundNames_methodLines hparts hend v.baseUrl
  have hparams : m.parameters = Form.pathParams m.path ++ m.smartParams := by rw [ServiceMethod.parameters, hpath]
  rw [hparams] at hbound
  refine ⟨⟨l, hl, hform⟩, fun n => ?_, ?_, fun n hn => ?_, fun hseam => ?_⟩
  · -- both lists are free of repetitions, so a name is counted once in each
    rw [hbound, List.count_append, (nodup_distinct _).count, (nodup_implicitNames m).count]
    simp only [mem_distinct]
  · rw [hbound, List.nodup_append]
    constructor
    · rintro ⟨-, -, hapart⟩ n himplicit hn
      exact hapart n ((mem_distinct _).mpr hn) n himplicit rfl
    · intro hapart
      refine ⟨nodup_distinct _, nodup_implicitNames m, ?_⟩
      rintro n hn k hk rfl
      exact hapart n hk ((mem_distinct _).mp hn)
  · -- behind the parameters of the endpoint there may be one for the data
    have hmem : n ∈ distinct m.parameters := (mem_distinct _).mpr (hparams ▸ hn)
    rw [parameterNames_methodLines hparts hend, methodParams]
    split
    · exact List.mem_append_left _ hmem
    · exact hmem
  · rw [interpolations_methodLines hparts hend hseam, hpath]

/-- A parameter that is both in the path and named is bound once. -/
theorem methodLines_names_query :
    ∃ v m, v ∈ (Document.read none "service Api: http://x/\n  get list /users/:id ?id ?page").script.services ∧
      m ∈ v.methods ∧ (boundNames (methodLines v.baseUrl m)).Nodup ∧
      interpolations (methodLines v.baseUrl m) = ["id", "query"] := by
  have hmethod : ∃ v ∈ (Document.read none "service Api: http://x/\n  get list /users/:id ?id ?page").script.services,
      ∃ m ∈ v.methods, v.baseUrl = "http://x/" ∧ m.path = "/users/:id" ∧ m.smartParams = ["id", "page"] ∧
        hasQuery m = true ∧ implicitNames m = ["query", "res"] := by decide +kernel
  obtain ⟨v, hv, m, hm, hbase, hpath, hsmart, hquery, himplicit⟩ := hmethod
  obtain ⟨-, -, hnodup, -, hholes⟩ := methodLines_names none _ v m hv hm
  rw [himplicit, hpath, hsmart] at hnodup
  rw [hbase, hpath, hquery] at hholes
  refine ⟨v, m, hv, hm, hnodup.mpr (by decide), ?_⟩
  rw [hbase]
  exact hholes (by decide)

/-- A parameter that is called as the payload is bound twice. -/
theorem payload_bound_twice :
    (∃ v ∈ (Document.read none "service Api: http://x\n  post save /a/:data").script.services, ∃ m ∈ v.methods,
      boundNames (methodLines v.baseUrl m) = ["data", "data", "res"] ∧
      ¬ (boundNames (methodLines v.baseUrl m)).Nodup) ∧
    ∃ v ∈ (Document.read none "service Api: http://x$\n  get load \x7by\x7d").script.services, ∃ m ∈ v.methods,
      interpolations (methodLines v.baseUrl m) = ["y"] ∧ parameterNames (methodLines v.baseUrl m) = [] := by
  decide +kernel

end Component

end Trellis
