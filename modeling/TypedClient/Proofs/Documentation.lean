import TypedClient.Proofs.Catalogs
import TypedClient.Proofs.ClientClosure
import TypedClient.Proofs.CodeLines
import TypedClient.Proofs.TextLines

/-! Descriptions of schemas, properties, parameters and request bodies, and the types document.
They become comments there and nothing else: without them the document has the same declarations
with the comments taken away. Each line of a description is a comment of its own, so no description
overruns its comment, and the code of the document stays the same line by line. -/

namespace TypedClient

open Code

/-! ### Lines of descriptions -/

namespace Text

theorem trimChars_subset (cs : List Char) : trimChars cs ⊆ cs := by
  intro c hc
  have hback := (List.dropWhile_sublist isBlank).subset (List.mem_reverse.mp hc)
  exact (List.dropWhile_sublist isBlank).subset (List.mem_reverse.mp hback)

theorem lineFeed_notMem_noteLines {description : Option String} {note : String}
    (h : note ∈ noteLines description) : '\n' ∉ note.toList := by
  cases description with
  | none => nomatch h
  | some text =>
    obtain ⟨line, hline, rfl⟩ := List.mem_map.mp h
    obtain ⟨cs, hcs, rfl⟩ := List.mem_map.mp hline
    intro hfeed
    refine lineFeed_notMem_lineChars text.toList cs hcs (trimChars_subset cs ?_)
    simpa [trim] using hfeed

end Text

/-! ### Models without documentation -/

namespace Model

mutual

/-- The schema without its description and those inside it, at any depth. -/
def Schema.undocumented : Schema → Schema
  | .mk shape _ => .mk shape.undocumented none

def Shape.undocumented : Shape → Shape
  | .array item => .array item.undocumented
  | .object properties required => .object (undocumentedProperties properties) required
  | .composed branches => .composed (undocumentedBranches branches)
  | .reference name => .reference name
  | .scalar kind => .scalar kind
  | .literals values => .literals values
  | .unknown => .unknown

def undocumentedProperties : List (String × Schema) → List (String × Schema)
  | [] => []
  | (name, schema) :: rest => (name, schema.undocumented) :: undocumentedProperties rest

def undocumentedBranches : List Schema → List Schema
  | [] => []
  | branch :: rest => branch.undocumented :: undocumentedBranches rest

end

theorem undocumentedProperties_eq (properties : List (String × Schema)) :
    undocumentedProperties properties =
      properties.map fun (name, schema) => (name, schema.undocumented) := by
  induction properties with
  | nil => rfl
  | cons p rest ih => simp [undocumentedProperties, ih]

@[simp] theorem Schema.description_undocumented (s : Schema) : s.undocumented.description = none := by
  cases s
  rfl

@[simp] theorem Schema.isLiterals_undocumented (s : Schema) :
    s.undocumented.isLiterals = s.isLiterals := by
  obtain ⟨shape, description⟩ := s
  cases shape <;> rfl

def Parameter.undocumented (p : Parameter) : Parameter :=
  { p with schema := p.schema.map .undocumented, description := none }

def RequestBody.undocumented (b : RequestBody) : RequestBody :=
  { b with schema := b.schema.map .undocumented, description := none }

def Operation.undocumented (op : Operation) : Operation :=
  { op with
    parameters := op.parameters.map .undocumented
    requestBody := op.requestBody.map .undocumented
    response := op.response.map .undocumented }

def Fields.undocumented (fields : Fields) : Fields :=
  ⟨undocumentedProperties fields.properties, fields.required⟩

def Entry.undocumented (entry : Entry) : Entry :=
  ⟨entry.name, entry.schema.undocumented, entry.fields.undocumented⟩

def Catalog.undocumented (c : Catalog) : Catalog :=
  { schemas := c.schemas.map fun (name, schema) => (name, schema.undocumented)
    fields := c.fields.map fun (name, fields) => (name, fields.undocumented) }

theorem Catalog.entries_undocumented (c : Catalog) :
    c.undocumented.entries = c.entries.map .undocumented := by
  have hfields : ∀ name, (c.undocumented.fields? name).getD .none =
      ((c.fields? name).getD .none).undocumented := by
    intro name
    rw [Catalog.fields?, Catalog.fields?, Catalog.undocumented, lookup_map_snd]
    cases c.fields.lookup name <;> rfl
  simp only [Catalog.entries, hfields, List.map_map]
  rw [Catalog.undocumented, List.map_map]
  rfl

end Model

/-- The API without the descriptions of its schemas, properties, parameters and request bodies. -/
def Api.undocumented (api : Api) : Api :=
  { api with
    catalog := api.catalog.undocumented
    operations := api.operations.map .undocumented }

def Generator.undocumented (g : Generator) : Generator := { g with api := g.api.undocumented }

namespace TypeScript

open Model Config Text

/-! ### Types -/

variable {compose : Compose}

mutual

theorem schemaType_undocumented (s : Schema) :
    schemaType compose s.undocumented = schemaType compose s := by
  match s with
  | .mk shape description => exact shapeType_undocumented shape

theorem shapeType_undocumented (shape : Shape) :
    shapeType compose shape.undocumented = shapeType compose shape := by
  match shape with
  | .array item =>
    have hitem := schemaType_undocumented item
    simp only [Shape.undocumented, shapeType, hitem]
  | .object [] required => rfl
  | .object ((name, schema) :: rest) required =>
    have hfields := fieldTypes_undocumented required ((name, schema) :: rest)
    simpa only [Shape.undocumented, undocumentedProperties, shapeType] using
      congrArg TypeExpr.object hfields
  | .composed branches =>
    have hbranches := branchTypes_undocumented branches
    simp only [Shape.undocumented, shapeType, hbranches]
  | .reference name => rfl
  | .scalar kind => rfl
  | .literals values => rfl
  | .unknown => rfl

theorem branchTypes_undocumented (branches : List Schema) :
    branchTypes compose (undocumentedBranches branches) = branchTypes compose branches := by
  match branches with
  | [] => rfl
  | branch :: rest =>
    have hbranch := schemaType_undocumented branch
    have hrest := branchTypes_undocumented rest
    simp only [undocumentedBranches, branchTypes, hbranch, hrest]

theorem fieldTypes_undocumented (required : List String) (properties : List (String × Schema)) :
    fieldTypes compose required (undocumentedProperties properties) =
      fieldTypes compose required properties := by
  match properties with
  | [] => rfl
  | (name, schema) :: rest =>
    have hschema := schemaType_undocumented schema
    have hrest := fieldTypes_undocumented required rest
    simp only [undocumentedProperties, fieldTypes, hschema, hrest]

end

theorem optionalType_undocumented (schema : Option Schema) :
    optionalType compose (schema.map .undocumented) = optionalType compose schema := by
  cases schema with
  | none => rfl
  | some schema => exact schemaType_undocumented schema

/-! ### Declarations without comments -/

mutual

/-- The field without its comments and those of fields inside it, at any depth. -/
def Field.uncommented : Field → Field
  | .plain name optional _ type => .plain name optional [] type
  | .nested name optional _ fields => .nested name optional [] (uncommentedFields fields)

def uncommentedFields : List Field → List Field
  | [] => []
  | field :: rest => field.uncommented :: uncommentedFields rest

end

mutual

/-- All comments of a field, at any depth. -/
def Field.notes : Field → List String
  | .plain _ _ comments _ => comments
  | .nested _ _ comments fields => comments ++ fieldNotes fields

def fieldNotes : List Field → List String
  | [] => []
  | field :: rest => field.notes ++ fieldNotes rest

end

theorem uncommentedFields_eq (fields : List Field) :
    uncommentedFields fields = fields.map Field.uncommented := by
  induction fields with
  | nil => rfl
  | cons field rest ih => simp [uncommentedFields, ih]

theorem fieldNotes_eq (fields : List Field) : fieldNotes fields = fields.flatMap Field.notes := by
  induction fields with
  | nil => rfl
  | cons field rest ih => simp [fieldNotes, ih]

def Interface.uncommented (i : Interface) : Interface :=
  { i with comments := [], fields := uncommentedFields i.fields }

def Declaration.uncommented : Declaration → Declaration
  | .interface i => .interface i.uncommented
  | .alias a => .alias { a with comments := [] }

def Declaration.notes : Declaration → List String
  | .interface i => i.comments ++ fieldNotes i.fields
  | .alias a => a.comments

theorem codeOf_commented (depth : Nat) {comments : List String}
    (h : ∀ note ∈ comments, overrun note = []) (fragments : List Fragment) :
    codeOf (textsAt depth (Fragment.comments comments ++ fragments)) =
      codeOf (textsAt depth fragments) := by
  have hnone : comments.flatMap overrun = [] := List.flatMap_eq_nil_iff.mpr h
  rw [codeOf_textsAt_append depth fragments (areLined_comments comments), codeOf_comments, hnone,
    List.nil_append]

/-- Fields in braces have the code of the fields. -/
theorem codeOf_braces (depth : Nat) (closed opening : String) {fields fields' : List Field}
    (hempty : fields.isEmpty = fields'.isEmpty)
    (hcode : codeOf (textsAt (depth + 1) (fieldFragments fields)) =
      codeOf (textsAt (depth + 1) (fieldFragments fields'))) :
    codeOf (textsAt depth [if fields.isEmpty then .line closed
        else .block opening (fieldFragments fields) (some r"}")]) =
      codeOf (textsAt depth [if fields'.isEmpty then .line closed
        else .block opening (fieldFragments fields') (some r"}")]) := by
  rw [hempty]
  split
  · rfl
  · rw [codeOf_block depth _ _ (areLined_fields fields),
      codeOf_block depth _ _ (areLined_fields fields'), hcode]

mutual

/-- Comments of one line each have no part in the code of a field. -/
theorem codeOf_field (depth : Nat) (field : Field) (h : ∀ note ∈ field.notes, overrun note = []) :
    codeOf (textsAt depth field.uncommented.fragments) = codeOf (textsAt depth field.fragments) := by
  match field with
  | .plain name optional comments type => exact (codeOf_commented depth h _).symm
  | .nested name optional comments fields =>
    obtain ⟨hcomments, hfields⟩ := List.forall_mem_append.mp h
    have hempty : (uncommentedFields fields).isEmpty = fields.isEmpty := by
      simp [uncommentedFields_eq]
    rw [Field.uncommented, Field.fragments, Field.fragments, codeOf_commented depth hcomments]
    exact codeOf_braces depth _ _ hempty (codeOf_fields (depth + 1) fields hfields)

theorem codeOf_fields (depth : Nat) (fields : List Field)
    (h : ∀ note ∈ fieldNotes fields, overrun note = []) :
    codeOf (textsAt depth (fieldFragments (uncommentedFields fields))) =
      codeOf (textsAt depth (fieldFragments fields)) := by
  match fields with
  | [] => rfl
  | field :: rest =>
    obtain ⟨hfield, hrest⟩ := List.forall_mem_append.mp h
    rw [uncommentedFields, fieldFragments, fieldFragments,
      codeOf_textsAt_append depth _ (areLined_field _),
      codeOf_textsAt_append depth _ (areLined_field _), codeOf_field depth field hfield,
      codeOf_fields depth rest hrest]

end

theorem codeOf_declaration {d : Declaration} (h : ∀ note ∈ d.notes, overrun note = []) :
    codeOf (Code.render d.uncommented.fragments) = codeOf (Code.render d.fragments) := by
  rw [Code.render_eq, Code.render_eq]
  match d with
  | .alias a => exact (codeOf_commented 0 h _).symm
  | .interface i =>
    obtain ⟨hcomments, hfields⟩ := List.forall_mem_append.mp h
    have hempty : (uncommentedFields i.fields).isEmpty = i.fields.isEmpty := by
      simp [uncommentedFields_eq]
    rw [Declaration.fragments, Interface.fragments, codeOf_commented 0 hcomments]
    exact codeOf_braces 0 _ _ hempty (codeOf_fields 1 i.fields hfields)

/-! ### Documents -/

/-- The code of declarations, each behind an empty line. -/
def declarationsCode (declarations : List Declaration) : List (List Char) :=
  declarations.flatMap fun d => [] :: codeOf (Code.render d.fragments)

theorem declarationsCode_uncommented {declarations : List Declaration}
    (h : ∀ d ∈ declarations, ∀ note ∈ d.notes, overrun note = []) :
    declarationsCode (declarations.map Declaration.uncommented) = declarationsCode declarations := by
  induction declarations with
  | nil => rfl
  | cons d rest ih =>
    obtain ⟨hfirst, hrest⟩ := List.forall_mem_cons.mp h
    have hcode := codeOf_declaration hfirst
    have ih := ih hrest
    simp only [declarationsCode, List.map_cons, List.flatMap_cons] at ih ⊢
    rw [hcode, ih]

def EndpointTypes.uncommented (e : EndpointTypes) : EndpointTypes :=
  ⟨e.request.map Interface.uncommented, { e.response with comments := [] }⟩

theorem EndpointTypes.declarations_uncommented (e : EndpointTypes) :
    e.uncommented.declarations = e.declarations.map Declaration.uncommented := by
  obtain ⟨request, response⟩ := e
  cases request <;> rfl

namespace TypesDocument

def uncommented (d : TypesDocument) : TypesDocument :=
  { d with
    schemas := d.schemas.map Declaration.uncommented
    endpoints := d.endpoints.map EndpointTypes.uncommented }

/-- The marker is a comment, so that nothing but an empty line is left of it. -/
theorem codeLines_render (d : TypesDocument) :
    codeLines d.render = d.contents.header.flatMap overrun ++
      (declarationsCode d.schemas ++ [[]] ++ declarationsCode d.endpointDeclarations ++ [[]]) := by
  have hmarker : codeOf (Code.render [marker]) = [] := by decide +kernel
  have hlined : ∀ fragments ∈ d.contents.sectionsBelow, areLined fragments = true := by
    intro fragments h
    rw [sectionsBelow_eq, List.append_assoc] at h
    rcases List.mem_append.mp h with h | h
    · obtain ⟨declaration, _, rfl⟩ := List.mem_map.mp h
      exact areLined_declaration declaration
    · rcases List.mem_cons.mp h with rfl | h
      · rfl
      · obtain ⟨declaration, _, rfl⟩ := List.mem_map.mp h
        exact areLined_declaration declaration
  rw [render, Module.codeLines_render (by simp [contents, headerLines]) hlined, sectionsBelow_eq]
  simp [declarationsCode, List.flatMap_map, hmarker]

theorem codeLines_uncommented {d : TypesDocument}
    (h : ∀ declaration ∈ d.schemas ++ d.endpointDeclarations, ∀ note ∈ declaration.notes,
      overrun note = []) : codeLines d.uncommented.render = codeLines d.render := by
  obtain ⟨hschemas, hendpoints⟩ := List.forall_mem_append.mp h
  have hdeclarations : d.uncommented.endpointDeclarations =
      d.endpointDeclarations.map Declaration.uncommented := by
    simp only [endpointDeclarations, uncommented, List.flatMap_map, List.map_flatMap,
      EndpointTypes.declarations_uncommented]
  rw [codeLines_render, codeLines_render, hdeclarations, declarationsCode_uncommented hendpoints]
  have hcode := declarationsCode_uncommented hschemas
  rw [uncommented, hcode]
  rfl

end TypesDocument

/-! ### The declarations of an API -/

theorem propertyField_undocumented (required : List String) (name : String) (schema : Schema) :
    propertyField compose required name schema.undocumented =
      (propertyField compose required name schema).uncommented := by
  simp [propertyField, Field.uncommented, schemaType_undocumented, noteLines]

theorem ofEntry_undocumented (entry : Model.Entry) :
    Declaration.ofEntry compose entry.undocumented =
      (Declaration.ofEntry compose entry).uncommented := by
  unfold Declaration.ofEntry
  simp only [Entry.undocumented, Fields.undocumented, Schema.isLiterals_undocumented, Schema.description_undocumented,
    schemaType_undocumented, undocumentedProperties_eq, List.map_map]
  split
  · rfl
  · simp only [Declaration.uncommented, Interface.uncommented, uncommentedFields_eq, List.map_map]
    congr 3
    funext ⟨name, schema⟩
    exact propertyField_undocumented _ name schema

/-- What a declaration says about a schema are lines of descriptions. -/
theorem mem_notes_ofEntry {entry : Model.Entry} {note : String}
    (h : note ∈ (Declaration.ofEntry compose entry).notes) :
    ∃ description, note ∈ noteLines description := by
  unfold Declaration.ofEntry at h
  dsimp only at h
  split at h
  · exact ⟨_, h⟩
  · rcases List.mem_append.mp h with h | h
    · exact ⟨_, h⟩
    · rw [fieldNotes_eq] at h
      obtain ⟨field, hfield, hnote⟩ := List.mem_flatMap.mp h
      obtain ⟨⟨name, schema⟩, _, rfl⟩ := List.mem_map.mp hfield
      exact ⟨schema.description, hnote⟩

/-- The parameter without what is said about it. -/
def ParamType.unnoted (p : ParamType) : ParamType := { p with notes := [] }

theorem ofParameter_undocumented (p : Model.Parameter) :
    ParamType.ofParameter compose p.undocumented = (ParamType.ofParameter compose p).unnoted := by
  simp [ParamType.ofParameter, ParamType.unnoted, Parameter.undocumented, optionalType_undocumented,
    noteLines]

theorem paramField_unnoted (optional : Bool) (p : ParamType) :
    paramField optional p.unnoted = (paramField optional p).uncommented := rfl

theorem map_ofParameter_undocumented (parameters : List Model.Parameter) :
    (parameters.map Parameter.undocumented).map (ParamType.ofParameter compose) =
      (parameters.map (ParamType.ofParameter compose)).map ParamType.unnoted := by
  simp [Function.comp_def, ofParameter_undocumented]

theorem queryOptional_unnoted (rule : QueryField) (params : List ParamType) :
    queryOptional rule (params.map .unnoted) = queryOptional rule params := by
  simp [queryOptional, Function.comp_def, ParamType.unnoted]

namespace Signature

/-- The signature without what is said about parameters. -/
def unnoted (s : Signature) : Signature :=
  { s with
    pathParams := s.pathParams.map .unnoted
    queryParams := s.queryParams.map .unnoted }

theorem ofOperation_undocumented (settings : Generation) (op : Model.Operation) :
    ofOperation settings op.undocumented = (ofOperation settings op).unnoted := by
  have hpath : op.undocumented.pathParameters = op.pathParameters.map .undocumented :=
    List.filter_map ..
  have hquery : op.undocumented.queryParameters = op.queryParameters.map .undocumented :=
    List.filter_map ..
  have hinput : op.undocumented.takesInput = op.takesInput := by
    simp [Operation.takesInput, Operation.undocumented]
  have hbody : (op.undocumented.requestBody.map fun b => optionalType settings.compose b.schema) =
      op.requestBody.map fun b => optionalType settings.compose b.schema := by
    simp [Operation.undocumented, Function.comp_def, RequestBody.undocumented,
      optionalType_undocumented]
  have hresponse : optionalType settings.compose op.undocumented.response =
      optionalType settings.compose op.response := optionalType_undocumented op.response
  simp only [ofOperation, unnoted, hpath, hquery, hinput, hbody, hresponse,
    map_ofParameter_undocumented, queryOptional_unnoted]
  rfl

theorem requestFields_unnoted (s : Signature) :
    s.unnoted.requestFields = s.requestFields.map Field.uncommented := by
  have hquery : s.unnoted.hasQuery = s.hasQuery := by simp [hasQuery, unnoted]
  rw [requestFields, requestFields, hquery]
  simp only [List.map_append, List.map_map, unnoted]
  congr 1
  · congr 1
    split
    · simp only [List.map_cons, List.map_nil, List.map_map, Field.uncommented, uncommentedFields_eq,
        Function.comp_def, paramField_unnoted]
      rfl
    · rfl
  · cases s.bodyType <;> rfl

theorem request_unnoted (s : Signature) :
    s.unnoted.request = s.request.map Interface.uncommented := by
  have hinput : s.unnoted.takesInput = s.takesInput := rfl
  unfold request
  rw [hinput, requestFields_unnoted, ← uncommentedFields_eq]
  split <;> rfl

theorem notes_requestFields (s : Signature) :
    fieldNotes s.requestFields = (s.pathParams ++ s.queryParams).flatMap ParamType.notes := by
  have hparams : ∀ (optional : ParamType → Bool) (params : List ParamType),
      fieldNotes (params.map fun p => paramField (optional p) p) =
        params.flatMap ParamType.notes := by
    intro optional params
    rw [fieldNotes_eq, List.flatMap_map]
    rfl
  have hquery : fieldNotes (if s.hasQuery then
      [.nested "query" s.queryOptional [] (s.queryParams.map fun p => paramField (!p.required) p)]
      else []) = s.queryParams.flatMap ParamType.notes := by
    split
    · simp [fieldNotes, Field.notes, hparams]
    · next h =>
      have hnone : s.queryParams = [] := by simpa [hasQuery] using h
      rw [hnone]
      rfl
  have hpath := hparams (fun _ => false) s.pathParams
  rw [fieldNotes_eq] at hpath hquery ⊢
  rw [requestFields, List.flatMap_append, List.flatMap_append, List.flatMap_append, hpath, hquery]
  cases s.bodyType <;> simp [Field.notes]

/-- What a request says about a parameter are lines of its description. -/
theorem mem_notes_requestFields {settings : Generation} {op : Model.Operation} {note : String}
    (h : note ∈ fieldNotes (ofOperation settings op).requestFields) :
    ∃ description, note ∈ noteLines description := by
  rw [notes_requestFields] at h
  obtain ⟨p, hp, hnote⟩ := List.mem_flatMap.mp h
  rcases List.mem_append.mp hp with hp | hp
  · obtain ⟨parameter, _, rfl⟩ := List.mem_map.mp hp
    exact ⟨parameter.description, hnote⟩
  · obtain ⟨parameter, _, rfl⟩ := List.mem_map.mp hp
    exact ⟨parameter.description, hnote⟩

end Signature

/-- The comments of the types document below its header are lines of descriptions. -/
theorem mem_notes_typesDocument {g : Generator} {d : Declaration} {note : String}
    (hd : d ∈ g.typesDocument.schemas ++ g.typesDocument.endpointDeclarations)
    (hnote : note ∈ d.notes) : ∃ description, note ∈ noteLines description := by
  rcases List.mem_append.mp hd with hd | hd
  · obtain ⟨entry, _, rfl⟩ := List.mem_map.mp hd
    exact mem_notes_ofEntry hnote
  · obtain ⟨e, he, hd⟩ := List.mem_flatMap.mp hd
    obtain ⟨s, hs, rfl⟩ := List.mem_map.mp he
    obtain ⟨op, _, rfl⟩ := List.mem_map.mp hs
    rcases List.mem_append.mp hd with hd | hd
    · obtain ⟨i, hi, rfl⟩ := Option.map_eq_some_iff.mp (Option.mem_toList.mp hd)
      obtain ⟨_, rfl⟩ := Signature.mem_request.mp hi
      exact Signature.mem_notes_requestFields hnote
    · rw [List.mem_singleton.mp hd] at hnote
      nomatch hnote

end TypeScript

open TypeScript

/-- Descriptions are comments and nothing else. Without those of schemas, properties, parameters and
request bodies the types document is the same with all comments on declarations and fields taken
away, and its code is the same line by line. -/
theorem typesDocument_undocumented (g : Generator) :
    g.undocumented.typesDocument = g.typesDocument.uncommented ∧
      codeLines g.undocumented.typesDocument.render = codeLines g.typesDocument.render := by
  have hschemas : g.undocumented.typesDocument.schemas =
      g.typesDocument.schemas.map Declaration.uncommented := by
    simp [Generator.typesDocument, Generator.undocumented, Api.undocumented,
      Model.Catalog.entries_undocumented, Function.comp_def, ofEntry_undocumented]
  have hendpoints : g.undocumented.typesDocument.endpoints =
      g.typesDocument.endpoints.map EndpointTypes.uncommented := by
    simp only [Generator.typesDocument, Generator.undocumented, Api.undocumented,
      Generator.signatures, List.map_map, Function.comp_def, Signature.ofOperation_undocumented,
      Signature.request_unnoted, EndpointTypes.uncommented]
    rfl
  have hdocument : g.undocumented.typesDocument = g.typesDocument.uncommented := by
    rw [TypesDocument.uncommented, ← hschemas, ← hendpoints]
    rfl
  rw [hdocument]
  refine ⟨rfl, TypesDocument.codeLines_uncommented fun d hd note hnote => ?_⟩
  obtain ⟨description, hline⟩ := mem_notes_typesDocument hd hnote
  exact overrun_eq_nil (Text.lineFeed_notMem_noteLines hline)

end TypedClient
