import TypedClient.Proofs.PrunedSchemas

/-! What the notes about schemas call ignored has no part in the generated files: a document that is
pruned throughout gives the same ones, and of its schemas nothing is noted any more. -/

namespace TypedClient

open Config Lint

namespace Document

variable (compose : Compose)

def Parameter.pruned (p : Parameter) : Parameter :=
  { p with schema := p.schema.map (·.pruned compose) }

def MediaType.pruned (media : MediaType) : MediaType := ⟨media.schema.map (·.pruned compose)⟩

def prunedContent (content : List (String × MediaType)) : List (String × MediaType) :=
  content.map fun (name, media) => (name, media.pruned compose)

def RequestBody.pruned (body : RequestBody) : RequestBody :=
  { body with content := prunedContent compose body.content }

def Response.pruned (response : Response) : Response :=
  { response with content := prunedContent compose response.content }

def Operation.pruned (op : Operation) : Operation :=
  { op with
    parameters := op.parameters.map (·.pruned compose)
    requestBody := op.requestBody.map (·.pruned compose)
    responses := op.responses.map fun (status, response) => (status, response.pruned compose) }

def PathItem.pruned (item : PathItem) : PathItem :=
  { item with
    parameters := item.parameters.map (·.pruned compose)
    operations := item.operations.map fun (method, op) => (method, op.pruned compose) }

def Components.pruned (components : Components) : Components :=
  { schemas := prunedNamed compose components.schemas
    parameters := components.parameters.map fun (name, p) => (name, p.pruned compose)
    distinct := by
      rw [prunedNamed_eq, keys_map_snd]
      exact components.distinct }

/-- The document without what is ignored in any of its schemas. -/
def pruned (d : Document) : Document :=
  { d with
    paths := d.paths.map fun (path, item) => (path, item.pruned compose)
    components := d.components.pruned compose }

def Endpoint.pruned (e : Endpoint) : Endpoint :=
  { e with operation := e.operation.pruned compose, item := e.item.pruned compose }

theorem jsonSchema_pruned (content : List (String × MediaType)) :
    jsonSchema (prunedContent compose content) = (jsonSchema content).map (·.pruned compose) := by
  rw [jsonSchema, jsonSchema, prunedContent, lookup_map_snd, Option.bind_map, Option.map_bind]
  rfl

theorem Operation.successSchema_pruned (op : Operation) :
    (op.pruned compose).successSchema = op.successSchema.map (·.pruned compose) := by
  rw [successSchema, successSchema, Operation.pruned, lookup_map_snd, Option.bind_map,
    Option.map_bind]
  congr 1
  funext response
  exact jsonSchema_pruned compose response.content

/-! #### Parameters -/

theorem resolveParameter_pruned (d : Document) (p : Parameter) :
    (d.pruned compose).resolveParameter (p.pruned compose) =
      (d.resolveParameter p).map (·.pruned compose) := by
  unfold resolveParameter
  cases h : p.reference with
  | none => simp [Parameter.pruned, h]
  | some reference =>
    have hlookup : ∀ name, (d.pruned compose).components.parameters.lookup name =
        (d.components.parameters.lookup name).map (·.pruned compose) :=
      lookup_map_snd _ d.components.parameters
    simp only [Parameter.pruned, h, hlookup, Option.map_bind]
    rfl

theorem filterMap_resolveParameter_pruned (d : Document) (parameters : List Parameter) :
    (parameters.map (·.pruned compose)).filterMap (d.pruned compose).resolveParameter =
      (parameters.filterMap d.resolveParameter).map (·.pruned compose) := by
  rw [List.filterMap_map, List.map_filterMap]
  congr 1
  funext p
  exact d.resolveParameter_pruned compose p

theorem effectiveParameters_pruned (d : Document) (item : PathItem) (op : Operation) :
    (d.pruned compose).effectiveParameters (item.pruned compose) (op.pruned compose) =
      (d.effectiveParameters item op).map (·.pruned compose) := by
  have hslot : ∀ p q : Parameter,
      (p.pruned compose).sameSlot (q.pruned compose) = p.sameSlot q := fun _ _ => rfl
  simp only [effectiveParameters, PathItem.pruned, Operation.pruned,
    filterMap_resolveParameter_pruned, List.map_append, List.filter_map, List.any_map,
    Function.comp_def, hslot]

/-! #### Notes -/

theorem ignoredEnum_pruned (s : Schema) : ignoredEnum (s.pruned compose) = [] := by
  unfold ignoredEnum
  rw [s.literals_pruned, s.reference_pruned, s.typeName_pruned, Schema.usedLiterals]
  by_cases h : (ignoredEnum s).isEmpty
  · rw [if_pos h]
    exact List.isEmpty_iff.mp h
  · rw [if_neg h]
    rfl

theorem cutComposition_pruned (s : Schema) :
    cutComposition compose (s.pruned compose).allOf = [] := by
  rw [s.allOf_pruned]
  cases compose with
  | intersection => rfl
  | first =>
    cases s.allOf with
    | none => rfl
    | some branches => cases branches <;> rfl

/-- Of what is left of a schema object nothing is said. -/
theorem schemaNotes_pruned (s : Schema) : schemaNotes compose (s.pruned compose) = [] := by
  rw [schemaNotes, s.oneOf_pruned, s.anyOf_pruned, cutComposition_pruned, ignoredEnum_pruned]
  rfl

theorem parts_pruned (s : Schema) :
    ∀ part ∈ (s.pruned compose).parts, ∃ whole ∈ s.parts, part = whole.pruned compose := by
  intro part hpart
  simp only [Schema.parts, Schema.propertySchemas, s.getD_properties_pruned, s.getD_allOf_pruned,
    s.items_pruned, s.oneOf_pruned, s.anyOf_pruned, Option.getD_none, List.append_nil,
    List.mem_append] at hpart
  rcases hpart with (h | h) | h
  · obtain ⟨item, hitem, rfl⟩ := Option.map_eq_some_iff.mp (Option.mem_toList.mp h)
    exact ⟨item, by simp [Schema.parts, hitem], rfl⟩
  · rw [List.map_map] at h
    obtain ⟨⟨name, whole⟩, hwhole, rfl⟩ := List.mem_map.mp h
    refine ⟨whole, ?_, rfl⟩
    simp [Schema.parts, Schema.propertySchemas, List.mem_map_of_mem (f := Prod.snd) hwhole]
  · obtain ⟨whole, hwhole, rfl⟩ := List.mem_map.mp h
    refine ⟨whole, ?_, rfl⟩
    simp [Schema.parts, usedBranches_subset compose _ hwhole]

theorem schemaNotes_visited_pruned (s : Schema) :
    ∀ v ∈ (s.pruned compose).visited, schemaNotes compose v = [] := by
  induction s using Schema.byParts with
  | step s ih =>
    intro v hv
    rw [visited_eq] at hv
    rcases List.mem_cons.mp hv with rfl | hv
    · exact schemaNotes_pruned compose s
    · obtain ⟨part, hpart, hv⟩ := List.mem_flatMap.mp hv
      obtain ⟨whole, hwhole, rfl⟩ := parts_pruned compose s part hpart
      exact ih whole hwhole v hv

theorem parameterSchemas_pruned (parameters : List Parameter) :
    parameterSchemas (parameters.map (·.pruned compose)) =
      (parameterSchemas parameters).map (·.pruned compose) := by
  simp only [parameterSchemas, List.flatMap_map, List.map_flatMap, Parameter.pruned,
    Option.toList_map]

theorem Operation.sites_pruned (op : Operation) :
    (op.pruned compose).sites = op.sites.map (·.pruned compose) := by
  have hbody : (op.pruned compose).requestBody.bind (jsonSchema ·.content) =
      (op.requestBody.bind (jsonSchema ·.content)).map (·.pruned compose) := by
    rw [Operation.pruned, Option.bind_map, Option.map_bind]
    congr 1
    funext body
    exact jsonSchema_pruned compose body.content
  have hresponses : (op.pruned compose).responses.flatMap
        (fun (_, response) => (jsonSchema response.content).toList) =
      (op.responses.flatMap fun (_, response) => (jsonSchema response.content).toList).map
        (·.pruned compose) := by
    simp only [Operation.pruned, List.flatMap_map, List.map_flatMap, Response.pruned,
      jsonSchema_pruned, Option.toList_map]
  rw [sites, sites, hbody, hresponses, List.map_append, List.map_append, Option.toList_map]
  simp only [Operation.pruned, parameterSchemas_pruned]

theorem sites_pruned (d : Document) : (d.pruned compose).sites = d.sites.map (·.pruned compose) := by
  simp only [sites, pruned, Components.pruned, PathItem.pruned, prunedNamed_eq, List.map_append,
    List.map_flatMap, List.flatMap_map, List.map_map, Operation.sites_pruned,
    parameterSchemas_pruned]
  rw [← parameterSchemas_pruned compose (d.components.parameters.map Prod.snd), List.map_map]
  rfl

theorem bodyNote_pruned (body : RequestBody) : bodyNote (body.pruned compose) = bodyNote body := by
  have hnames : (prunedContent compose body.content).map Prod.fst = body.content.map Prod.fst := by
    rw [prunedContent, List.map_map]
    rfl
  have hempty : (prunedContent compose body.content).isEmpty = body.content.isEmpty := by
    rw [prunedContent, List.isEmpty_map]
  rw [bodyNote, bodyNote, RequestBody.pruned, jsonSchema_pruned, Option.isNone_map, hnames, hempty]

theorem endpoints_pruned (d : Document) :
    (d.pruned compose).endpoints = d.endpoints.map (·.pruned compose) := by
  simp only [endpoints, pruned, List.flatMap_map, List.map_flatMap, PathItem.pruned, List.map_map]
  rfl

/-- Nothing is noted of the schemas that are left. Bodies without a schema are no schemas. -/
theorem unsupportedSchema_pruned (config : Config) (d : Document) :
    unsupportedSchema.check config (d.pruned config.generation.compose) =
      d.endpoints.filterMap fun e => (e.operation.requestBody.bind bodyNote).map (note e.location) := by
  have hschemas : (d.pruned config.generation.compose).walk.flatMap (fun v =>
      (schemaNotes config.generation.compose v.schema).map (note v.location)) = [] := by
    rw [List.flatMap_eq_nil_iff]
    intro v hv
    have hvisited := List.mem_map_of_mem (f := Visit.schema) hv
    rw [map_walk_document, sites_pruned, List.flatMap_map] at hvisited
    obtain ⟨s, _, hs⟩ := List.mem_flatMap.mp hvisited
    rw [schemaNotes_visited_pruned _ s _ hs]
    rfl
  have hbodies : ∀ e : Endpoint,
      (e.pruned config.generation.compose).operation.requestBody.bind bodyNote =
        e.operation.requestBody.bind bodyNote := by
    intro e
    simp only [Endpoint.pruned, Operation.pruned, Option.bind_map, Function.comp_def,
      bodyNote_pruned]
  simp only [unsupportedSchema, hschemas, List.nil_append, endpoints_pruned, List.filterMap_map,
    Function.comp_def, hbodies]
  rfl

end Document

/-! ### Files -/

namespace OperationSource

open Model TypeScript

variable (compose : Compose)

def pruned (s : OperationSource) : OperationSource :=
  { s with
    parameters := s.parameters.map (·.pruned compose)
    operation := s.operation.pruned compose }

variable {compose}

theorem optionalType_pruned (s : Option Document.Schema) :
    optionalType compose ((s.map (·.pruned compose)).map Schema.ofDocument) =
      optionalType compose (s.map Schema.ofDocument) := by
  cases s with
  | none => rfl
  | some s => exact schemaType_pruned s

theorem ofParameter_pruned (place : Place) (name : String) (p : Document.Parameter) :
    ParamType.ofParameter compose (.ofDocument place name (p.pruned compose)) =
      ParamType.ofParameter compose (.ofDocument place name p) := by
  simp only [ParamType.ofParameter, Parameter.ofDocument, Document.Parameter.pruned,
    optionalType_pruned]

/-- What is shown of a parameter that is carried. -/
theorem lowerParameter_pruned (location : String) (p : Document.Parameter) :
    ((lowerParameter location (p.pruned compose)).bind Sum.getLeft?).map
        (fun q => (q.place, ParamType.ofParameter compose q)) =
      ((lowerParameter location p).bind Sum.getLeft?).map
        (fun q => (q.place, ParamType.ofParameter compose q)) := by
  have hname : (p.pruned compose).name = p.name := rfl
  have hplace : (p.pruned compose).place = p.place := rfl
  have hcarried : ∀ place name,
      (Parameter.ofDocument place name (p.pruned compose)).place =
        (Parameter.ofDocument place name p).place := fun _ _ => rfl
  unfold lowerParameter
  rw [hname, hplace]
  cases p.name with
  | none => rfl
  | some name =>
    by_cases hempty : name = ""
    · simp [hempty]
    · rcases p.place with _ | _ | _ | _ | _ | _ <;> simp [hempty, ofParameter_pruned, hcarried]

theorem shownParameters_pruned (s : OperationSource) :
    shownParameters compose (s.pruned compose).toModel.parameters =
      shownParameters compose s.toModel.parameters := by
  simp only [toModel, pruned, shownParameters, List.filterMap_filterMap, List.filterMap_map,
    List.map_filterMap, Function.comp_def, lowerParameter_pruned]

theorem shownBody_pruned (s : OperationSource) :
    shownBody compose (s.pruned compose).toModel.requestBody =
      shownBody compose s.toModel.requestBody := by
  simp only [toModel, pruned, Document.Operation.pruned, shownBody, Option.map_map]
  congr 1
  funext body
  simp only [Function.comp_def, RequestBody.ofDocument, Document.RequestBody.pruned,
    Document.jsonSchema_pruned, optionalType_pruned]

theorem response_pruned (s : OperationSource) :
    optionalType compose (s.pruned compose).toModel.response =
      optionalType compose s.toModel.response := by
  simp only [toModel, pruned, Document.Operation.successSchema_pruned, optionalType_pruned]

theorem ofOperation_pruned (settings : Generation) (s : OperationSource) :
    Signature.ofOperation settings (s.pruned settings.compose).toModel =
      Signature.ofOperation settings s.toModel := by
  refine ofOperation_congr ?_ ?_ ?_ ?_ ?_ ?_ (shownParameters_pruned s) (shownBody_pruned s)
    (response_pruned s) <;> rfl

end OperationSource

open TypeScript Model

section Run

variable (d : Document) (config : Config) (now : String)

theorem operationSources_pruned (compose : Compose) : (d.pruned compose).operationSources =
    d.operationSources.map (·.pruned compose) := by
  rw [Document.operationSources, Document.operationSources, d.endpoints_pruned, List.map_map,
    List.map_map]
  apply List.map_congr_left
  intro e _
  have hparameters := d.effectiveParameters_pruned compose e.item e.operation
  simp only [Function.comp_def, Document.operationSource, Document.Endpoint.pruned,
    OperationSource.pruned, hparameters]

theorem schemas_pruned :
    ((d.pruned config.generation.compose).generator config now).typesDocument.schemas =
      (d.generator config now).typesDocument.schemas := by
  simp only [Generator.typesDocument, Document.generator, entries_catalog, Document.pruned,
    Document.Components.pruned, Document.prunedNamed_eq, List.map_map]
  apply List.map_congr_left
  rintro ⟨name, s⟩ _
  exact ofEntry_congr rfl (Schema.description_pruned _ s) (Schema.isLiterals_pruned _ s)
    (s.required_pruned _) (fun _ => schemaType_pruned s)
    fun _ => shownProperties_pruned fun part _ => schemaType_pruned part

theorem files_pruned : ((d.pruned config.generation.compose).generator config now).files =
    (d.generator config now).files := by
  refine Generator.files_congr rfl rfl rfl rfl (schemas_pruned d config now) ?_
  rw [Document.signatures_generator, Document.signatures_generator, operationSources_pruned,
    List.map_map]
  exact List.map_congr_left fun s _ => s.ofOperation_pruned config.generation

/-- A document without what is ignored has the files of the whole one, and nothing is noted of its
schemas any more. Nor does it matter how much is taken away: any document that is left the same when
it is pruned has these files. -/
theorem files_without_ignored :
    ((d.pruned config.generation.compose).generator config now).files =
        (d.generator config now).files ∧
      unsupportedSchema.check config (d.pruned config.generation.compose) =
        (d.endpoints.filterMap fun e =>
          (e.operation.requestBody.bind bodyNote).map (note e.location)) ∧
      ∀ e : Document, e.pruned config.generation.compose = d.pruned config.generation.compose →
        (e.generator config now).files = (d.generator config now).files := by
  refine ⟨files_pruned d config now, Document.unsupportedSchema_pruned config d, ?_⟩
  intro e h
  rw [← files_pruned d, ← h, files_pruned e]

end Run

/-- A document with one schema: an integer, with an enumeration and alternatives. -/
def levelDocument (literals : Option (List Json.Value)) (oneOf : Option (List Document.Schema)) :
    Document :=
  let level := { Document.Schema.empty with
    type := some (.single "integer"), literals := literals, oneOf := oneOf }
  { Document.empty with components := Document.Components.empty.withSchemas [("Level", level)] }

theorem levelDocument_files_without_ignored :
    (levelDocument none none).pruned .first =
        (levelDocument (some [.number (.integer 1)]) (some [.empty])).pruned .first ∧
      ((levelDocument none none).generator .default "now").files =
        ((levelDocument (some [.number (.integer 1)]) (some [.empty])).generator .default "now").files :=
  ⟨rfl, (files_without_ignored (levelDocument (some [.number (.integer 1)]) (some [.empty])) .default
    "now").2.2 (levelDocument none none) rfl⟩

end TypedClient
