import TypedClient.Proofs.OperationSources
import TypedClient.Proofs.SchemaMeaning

/-! What the generated files show of the schemas of an API: the types of properties, parameters,
bodies and responses, with descriptions where there are any. Two runs have the same files when they
show the same. -/

namespace TypedClient

open Config

namespace TypeScript

/-- What an interface shows of properties. -/
def shownProperties (compose : Compose) (properties : List (String × Model.Schema)) :
    List (String × Option String × String) :=
  properties.map fun (name, s) => (name, s.description, schemaType compose s)

/-- What a signature shows of parameters. -/
def shownParameters (compose : Compose) (parameters : List Model.Parameter) :
    List (Model.Place × ParamType) :=
  parameters.map fun p => (p.place, .ofParameter compose p)

/-- What a signature shows of a request body. -/
def shownBody (compose : Compose) (body : Option Model.RequestBody) : Option String :=
  body.map fun b => optionalType compose b.schema

theorem map_propertyField (compose : Compose) (required : List String)
    (properties : List (String × Model.Schema)) :
    (properties.map fun (name, s) => propertyField compose required name s) =
      (shownProperties compose properties).map fun (name, description, type) =>
        .plain name (!required.contains name) (Text.noteLines description) type := by
  rw [shownProperties, List.map_map]
  rfl

/-- Of the type of an object it matters what is shown of the properties. -/
theorem shapeType_object_congr {compose compose' : Compose} {required : List String}
    {properties properties' : List (String × Model.Schema)}
    (h : (properties.map fun (name, s) => (name, schemaType compose s)) =
      properties'.map fun (name, s) => (name, schemaType compose' s)) :
    shapeType compose (.object properties required) =
      shapeType compose' (.object properties' required) := by
  have hfields : ∀ compose (properties : List (String × Model.Schema)),
      fieldTypes compose required properties =
        (properties.map fun (name, s) => (name, schemaType compose s)).map fun p =>
          ⟨p.1, !required.contains p.1, p.2⟩ := by
    intro compose properties
    rw [fieldTypes_eq, List.map_map]
    rfl
  cases properties with
  | nil =>
    obtain rfl : properties' = [] := by simpa using h.symm
    rfl
  | cons p rest =>
    cases properties' with
    | nil => simp at h
    | cons p' rest' => rw [shapeType, shapeType, hfields, hfields, h]

/-! ### Declarations -/

theorem ofEntry_congr {compose compose' : Compose} {entry entry' : Model.Entry}
    (hname : entry.name = entry'.name)
    (hdescription : entry.schema.description = entry'.schema.description)
    (hliterals : entry.schema.isLiterals = entry'.schema.isLiterals)
    (hrequired : entry.fields.required = entry'.fields.required)
    (htype : entry.schema.isLiterals = true →
      schemaType compose entry.schema = schemaType compose' entry'.schema)
    (hproperties : entry.schema.isLiterals = false →
      shownProperties compose entry.fields.properties =
        shownProperties compose' entry'.fields.properties) :
    Declaration.ofEntry compose entry = Declaration.ofEntry compose' entry' := by
  unfold Declaration.ofEntry
  rw [← hliterals]
  cases h : entry.schema.isLiterals with
  | true => simp [hname, hdescription, htype h]
  | false => simp [hname, hdescription, map_propertyField, hproperties h, hrequired]

/-! ### Signatures -/

theorem map_ofParameter_filter (compose : Compose) (place : Model.Place)
    (parameters : List Model.Parameter) :
    (parameters.filter (·.place == place)).map (ParamType.ofParameter compose) =
      ((shownParameters compose parameters).filter (·.1 == place)).map Prod.snd := by
  rw [shownParameters, List.filter_map, List.map_map]
  rfl

/-- Of the schemas of an operation it matters what is shown of them. -/
theorem ofOperation_congr {settings settings' : Generation} {op op' : Model.Operation}
    (hrule : settings.queryField = settings'.queryField) (hmethod : op.method = op'.method)
    (hpath : op.path = op'.path) (hid : op.declaredId = op'.declaredId)
    (hsummary : op.summary = op'.summary) (hdescription : op.description = op'.description)
    (hparameters : shownParameters settings.compose op.parameters =
      shownParameters settings'.compose op'.parameters)
    (hbody : shownBody settings.compose op.requestBody =
      shownBody settings'.compose op'.requestBody)
    (hresponse : optionalType settings.compose op.response =
      optionalType settings'.compose op'.response) :
    Signature.ofOperation settings op = Signature.ofOperation settings' op' := by
  have hcarried : ∀ place,
      (op.parameters.filter (·.place == place)).map (ParamType.ofParameter settings.compose) =
        (op'.parameters.filter (·.place == place)).map (ParamType.ofParameter settings'.compose) := by
    intro place
    rw [map_ofParameter_filter, map_ofParameter_filter, hparameters]
  have hid : op.id = op'.id := by rw [Model.Operation.id, Model.Operation.id, hmethod, hpath, hid]
  have hinput : op.takesInput = op'.takesInput := by
    have hempty := congrArg List.isEmpty hparameters
    have hsome := congrArg Option.isSome hbody
    rw [shownParameters, shownParameters, List.isEmpty_map, List.isEmpty_map] at hempty
    rw [shownBody, shownBody, Option.isSome_map, Option.isSome_map] at hsome
    rw [Model.Operation.takesInput, Model.Operation.takesInput, hempty, hsome]
  have hlabel : op.label = op'.label := by
    obtain ⟨method, path, declaredId, summary, description, parameters, body, response⟩ := op
    dsimp only at hmethod hpath hsummary hdescription
    subst hmethod hpath hsummary hdescription
    rfl
  have hpathParams := hcarried .path
  have hqueryParams := hcarried .query
  unfold shownBody at hbody
  simp only [Signature.ofOperation, Model.Operation.pathParameters,
    Model.Operation.queryParameters, hpathParams, hqueryParams, hid, hinput, hlabel, hmethod, hpath,
    hbody, hresponse, hrule]

end TypeScript

/-! ### Files -/

/-- Two runs that go to the same places have the same files when their declarations and their
signatures are the same. -/
theorem Generator.files_congr {g g' : Generator} (houtput : g.config.output = g'.config.output)
    (hclient : g.config.client = g'.config.client) (hinfo : g.api.info = g'.api.info)
    (htime : g.generatedAt = g'.generatedAt)
    (hschemas : g.typesDocument.schemas = g'.typesDocument.schemas)
    (hsignatures : g.signatures = g'.signatures) : g.files = g'.files := by
  have htitle : g.title = g'.title := by rw [title, title, hclient, hinfo]
  have htypes : g.typesDocument = g'.typesDocument := by
    have hendpoints : g.typesDocument.endpoints = g'.typesDocument.endpoints := by
      rw [typesDocument, hsignatures]
      rfl
    exact TypeScript.TypesDocument.mk.injEq .. ▸ ⟨htitle, htime, hschemas, hendpoints⟩
  have hdocument : g.clientDocument = g'.clientDocument := by
    rw [clientDocument, clientDocument, htitle, htime, hclient, hsignatures]
  rw [files, files, htypes, hdocument, houtput]

end TypedClient
