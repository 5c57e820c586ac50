import TypedClient.Proofs.Catalogs
import TypedClient.Proofs.DocumentSchemas
import TypedClient.Proofs.Schemas

/-! The references that an API keeps of its document. A schema object hands on the
references of some of its parts, and a document those of some schema objects; each
reference of the API stands for one of these, and a walk of the document visits them all. -/

namespace TypedClient

open Document

namespace Document

/-- The parts of a schema object that go into the schema it describes: none of a reference, the
branches and properties of a composition, the items of an array, else the properties. -/
def Schema.keptParts (s : Schema) : List Schema :=
  if s.reference.isSome then []
  else if (s.allOf.getD []).isEmpty then
    match s.typeName with
    | some "array" => s.items.toList
    | some "object" => s.propertySchemas
    | some _ => []
    | none => s.propertySchemas
  else s.allOf.getD [] ++ s.propertySchemas

theorem Schema.keptParts_subset (s : Schema) : s.keptParts ⊆ s.parts := by
  intro part h
  simp only [parts, List.mem_append]
  unfold keptParts at h
  split at h
  · simp at h
  split at h
  · split at h
    · exact .inl (.inl (.inl (.inl h)))
    · exact .inl (.inl (.inl (.inr h)))
    · simp at h
    · exact .inl (.inl (.inl (.inr h)))
  · rcases List.mem_append.mp h with h | h
    · exact .inl (.inl (.inr h))
    · exact .inl (.inl (.inl (.inr h)))

/-- `pointer` is a reference that the schema object hands on, at any depth. -/
inductive Schema.Keeps : Schema → String → Prop
  | reference {s : Schema} {pointer : String} (h : s.reference = some pointer) : Keeps s pointer
  | part {s part : Schema} {pointer : String} (hp : part ∈ s.keptParts) (h : Keeps part pointer) :
    Keeps s pointer

/-- What is handed on is visited. -/
theorem Schema.Keeps.visited {s : Schema} {pointer : String} (h : s.Keeps pointer) :
    ∃ v ∈ s.visited, v.reference = some pointer := by
  induction h with
  | @reference s pointer h =>
    refine ⟨s, ?_, h⟩
    rw [visited_eq]
    exact List.mem_cons_self
  | @part s part pointer hp _ ih =>
    obtain ⟨v, hv, href⟩ := ih
    refine ⟨v, ?_, href⟩
    rw [visited_eq]
    exact List.mem_cons_of_mem _ (List.mem_flatMap.mpr ⟨part, s.keptParts_subset hp, hv⟩)

end Document

namespace Model

/-! ### Schemas -/

theorem schemas_eq (l : List Document.Schema) : schemas l = l.map Schema.ofDocument := by
  induction l with
  | nil => rfl
  | cons s rest ih => rw [schemas, ih, List.map_cons]

theorem optionalBranches_eq (branches : Option (List Document.Schema)) :
    optionalBranches branches = (branches.getD []).map Schema.ofDocument := by
  cases branches with
  | none => rfl
  | some branches => exact schemas_eq branches

theorem namedSchemas_eq (l : List (String × Document.Schema)) :
    namedSchemas l = l.map fun (name, s) => (name, Schema.ofDocument s) := by
  induction l with
  | nil => rfl
  | cons p rest ih => rw [namedSchemas, ih, List.map_cons]

theorem optionalProperties_eq (properties : Option (List (String × Document.Schema))) :
    optionalProperties properties =
      (properties.getD []).map fun (name, s) => (name, Schema.ofDocument s) := by
  cases properties with
  | none => rfl
  | some properties => exact namedSchemas_eq properties

theorem snd_properties_ofDocument (s : Document.Schema) :
    (Fields.ofDocument s).properties.map Prod.snd = s.propertySchemas.map Schema.ofDocument := by
  rw [Fields.ofDocument, optionalProperties_eq, Schema.propertySchemas, List.map_map, List.map_map]
  rfl

/-- A schema by the keys of its schema object. -/
theorem ofDocument_eq (s : Document.Schema) : Schema.ofDocument s =
    .mk (match s.reference with
      | some pointer => .reference (referenceName pointer)
      | none =>
        if (s.allOf.getD []).isEmpty then
          .ofType s.typeName s.literals (optionalItem s.items) s.properties.isSome (.ofDocument s)
        else
          .composed (composedBranches ((s.allOf.getD []).map Schema.ofDocument) (.ofDocument s)))
      s.description := by
  obtain ⟨reference, type, literals, format, description, items, properties, required, allOf, oneOf,
    anyOf⟩ := s
  simp only [Schema.ofDocument, optionalBranches_eq, List.isEmpty_map]
  rfl

/-- The shape that a schema object describes: a reference, else what its type asks for if it has no
branches, else a composition of them. -/
theorem shape_ofDocument (s : Document.Schema) :
    (∃ pointer, (Schema.ofDocument s).shape = .reference (referenceName pointer)) ∨
      (Schema.ofDocument s).shape = .ofType s.typeName s.literals (optionalItem s.items)
        s.properties.isSome (.ofDocument s) ∨
      s.allOf.getD [] ≠ [] ∧ (Schema.ofDocument s).shape =
        .composed (composedBranches ((s.allOf.getD []).map Schema.ofDocument) (.ofDocument s)) := by
  rw [ofDocument_eq, Schema.shape]
  cases s.reference with
  | some pointer => exact .inl ⟨pointer, rfl⟩
  | none =>
    cases hallOf : s.allOf.getD [] with
    | nil => exact .inr (.inl rfl)
    | cons branch rest => exact .inr (.inr ⟨nofun, rfl⟩)

/-- A type name asks for no reference and no composition. -/
theorem ofType_simple (type : Option String) (literals : Option (List Json.Value)) (item : Schema)
    (declared : Bool) (fields : Fields) :
    (∀ name, Shape.ofType type literals item declared fields ≠ .reference name) ∧
      ∀ branches, Shape.ofType type literals item declared fields ≠ .composed branches := by
  fun_cases Shape.ofType type literals item declared fields <;> simp

/-- The children of a schema object that is no reference and no composition. Those of an array are
never missing: without items there is the unknown one. -/
theorem children_ofType (s : Document.Schema) :
    (Shape.ofType s.typeName s.literals (optionalItem s.items) s.properties.isSome
        (.ofDocument s)).children =
      match s.typeName with
      | some "array" => [optionalItem s.items]
      | some "object" => s.propertySchemas.map Schema.ofDocument
      | some _ => []
      | none => s.propertySchemas.map Schema.ofDocument := by
  have hproperties := snd_properties_ofDocument s
  have hdeclared : s.properties.isSome = false → s.propertySchemas = [] := by
    intro h
    have hnone : s.properties = none := by simpa using h
    rw [Schema.propertySchemas, hnone]
    rfl
  fun_cases Shape.ofType s.typeName s.literals (optionalItem s.items) s.properties.isSome
    (.ofDocument s) <;> simp_all [Shape.children]

theorem references_composedBranches (branches : List Schema) (fields : Fields) :
    (composedBranches branches fields).flatMap Schema.references =
      (branches ++ fields.properties.map Prod.snd).flatMap Schema.references := by
  rw [composedBranches, List.flatMap_append, List.flatMap_append]
  cases h : fields.properties with
  | nil => rfl
  | cons p rest => simp [Schema.references, Shape.references, propertyReferences_eq, List.flatMap_map]

/-- One step of the references of a schema. -/
theorem references_ofDocument (s : Document.Schema) : (Schema.ofDocument s).references =
    match s.reference with
    | some pointer => [referenceName pointer]
    | none => s.keptParts.flatMap fun part => (Schema.ofDocument part).references := by
  rw [ofDocument_eq, Schema.references]
  cases hs : s.reference with
  | some pointer => rfl
  | none =>
    cases hallOf : (s.allOf.getD []).isEmpty with
    | true =>
      have hitem : (optionalItem s.items).references =
          s.items.toList.flatMap fun part => (Schema.ofDocument part).references := by
        cases s.items <;> simp [optionalItem, Schema.references, Shape.references]
      simp only [if_true]
      rw [Shape.references_eq (ofType_simple ..).1, children_ofType]
      simp only [Schema.keptParts, hs, hallOf, Option.isSome_none, Bool.false_eq_true, if_false,
        if_true]
      split <;> simp [hitem, List.flatMap_map]
    | false =>
      simp only [Bool.false_eq_true, if_false]
      rw [Shape.references_eq (by simp), Shape.children, references_composedBranches,
        snd_properties_ofDocument, ← List.map_append, List.flatMap_map]
      simp only [Schema.keptParts, hs, hallOf, Option.isSome_none, Bool.false_eq_true, if_false]

theorem mem_references_ofDocument {s : Document.Schema} {name : String} :
    name ∈ (Schema.ofDocument s).references ↔
      ∃ pointer, s.Keeps pointer ∧ referenceName pointer = name := by
  induction s using Document.Schema.byParts with
  | step s ih =>
    rw [references_ofDocument]
    cases hs : s.reference with
    | some pointer =>
      constructor
      · intro h
        exact ⟨pointer, .reference hs, (List.mem_singleton.mp h).symm⟩
      · rintro ⟨kept, h, rfl⟩
        cases h with
        | reference h => simp_all
        | part hp _ => simp [Schema.keptParts, hs] at hp
    | none =>
      constructor
      · intro h
        obtain ⟨part, hp, hname⟩ := List.mem_flatMap.mp h
        obtain ⟨pointer, hkeeps, rfl⟩ := (ih part (s.keptParts_subset hp)).mp hname
        exact ⟨pointer, .part hp hkeeps, rfl⟩
      · rintro ⟨pointer, h, rfl⟩
        cases h with
        | reference h => simp_all
        | part hp h =>
          exact List.mem_flatMap.mpr ⟨_, hp, (ih _ (s.keptParts_subset hp)).mpr ⟨pointer, h, rfl⟩⟩

/-! ### Documents -/

/-- The schemas of an operation, without those nested in them. -/
def Operation.schemas (op : Operation) : List Schema :=
  op.parameters.flatMap (fun p => p.schema.toList) ++ (op.requestBody.bind (·.schema)).toList ++
    op.response.toList

end Model

/-- The schemas of an API, without those nested in them: those of the catalog, those of the
properties that it keeps beside them, and those of the operations. -/
def Api.schemas (api : Api) : List Model.Schema :=
  api.catalog.schemas.map Prod.snd ++
    api.catalog.fields.flatMap (fun (_, fields) => fields.properties.map Prod.snd) ++
    api.operations.flatMap Model.Operation.schemas

/-- The names of all references of an API, at any depth. -/
def Api.references (api : Api) : List String := api.schemas.flatMap Model.Schema.references

namespace Document

/-- Whether a client can carry the parameter. -/
def Parameter.isCarried (p : Parameter) : Bool :=
  p.name.any (!·.isEmpty) && (p.place == some .path || p.place == some .query)

/-- The schema objects of an operation that go into the API. -/
def keptSchemas (d : Document) (e : Endpoint) : List Schema :=
  parameterSchemas ((d.effectiveParameters e.item e.operation).filter Parameter.isCarried) ++
    (e.operation.requestBody.bind (jsonSchema ·.content)).toList ++ e.operation.successSchema.toList

/-- The schema objects of a document that go into its API. -/
def kept (d : Document) : List Schema :=
  d.components.schemas.map Prod.snd ++
    d.components.schemas.flatMap (fun (_, s) => s.propertySchemas) ++
    d.endpoints.flatMap d.keptSchemas

/-- `pointer` is a reference that the document hands on to its API. -/
def Keeps (d : Document) (pointer : String) : Prop := ∃ s ∈ d.kept, s.Keeps pointer

end Document

open Model

/-- The parameters that are not skipped are those that a client can carry. -/
theorem schema_lowerParameter (location : String) (p : Document.Parameter) :
    ((lowerParameter location p).bind Sum.getLeft?).bind (fun p => p.schema) =
      if p.isCarried then p.schema.map Schema.ofDocument else none := by
  unfold lowerParameter Parameter.isCarried
  cases hname : p.name with
  | none => rfl
  | some name =>
    by_cases hempty : name.isEmpty = true
    · simp [hempty]
    · cases hplace : p.place with
      | none => simp [hempty]
      | some place => cases place <;> simp [hempty, Parameter.ofDocument]

theorem schemas_lowered (location : String) (parameters : List Document.Parameter) :
    ((parameters.filterMap (lowerParameter location)).filterMap Sum.getLeft?).flatMap
        (fun p => p.schema.toList) =
      (parameterSchemas (parameters.filter Parameter.isCarried)).map Schema.ofDocument := by
  rw [List.filterMap_filterMap]
  induction parameters with
  | nil => rfl
  | cons p rest ih =>
    have hfirst : ((p :: rest).filterMap fun p => (lowerParameter location p).bind Sum.getLeft?).flatMap
        (fun p => p.schema.toList) =
        (((lowerParameter location p).bind Sum.getLeft?).bind (fun p => p.schema)).toList ++
          (rest.filterMap fun p => (lowerParameter location p).bind Sum.getLeft?).flatMap
            (fun p => p.schema.toList) := by
      cases h : (lowerParameter location p).bind Sum.getLeft? <;> simp [h]
    rw [hfirst, schema_lowerParameter, ih]
    cases hcarried : p.isCarried with
    | false => simp [hcarried]
    | true => cases hs : p.schema <;> simp [hcarried, hs, parameterSchemas]

theorem schemas_operation (d : Document) (e : Endpoint) :
    (Operation.ofDocument d e).schemas = (d.keptSchemas e).map Schema.ofDocument := by
  have hoption : ∀ o : Option Document.Schema,
      (o.map Schema.ofDocument).toList = o.toList.map Schema.ofDocument := by
    intro o
    cases o <;> rfl
  have hbody : (e.operation.requestBody.map RequestBody.ofDocument).bind (fun b => b.schema) =
      (e.operation.requestBody.bind (jsonSchema ·.content)).map Schema.ofDocument := by
    cases e.operation.requestBody <;> rfl
  simp only [Operation.schemas, Operation.ofDocument, lowerParameters, keptSchemas, List.map_append,
    schemas_lowered, hbody, hoption]

/-- The schemas of an API are what the schema objects of its document describe. -/
theorem schemas_ofDocument (d : Document) :
    (Api.ofDocument d).schemas = d.kept.map Schema.ofDocument := by
  simp only [Api.schemas, Api.ofDocument, kept, Catalog.schemas_ofDocument d.components.distinct,
    Catalog.fields_ofDocument d.components.distinct, List.map_append, List.map_map, List.flatMap_map,
    List.map_flatMap, snd_properties_ofDocument, schemas_operation]
  rfl

/-- Each reference of an API stands for one that its document hands on. -/
theorem mem_references_api {d : Document} {name : String} :
    name ∈ (Api.ofDocument d).references ↔
      ∃ pointer, d.Keeps pointer ∧ referenceName pointer = name := by
  rw [Api.references, schemas_ofDocument, List.flatMap_map]
  simp only [List.mem_flatMap, mem_references_ofDocument, Keeps]
  constructor
  · rintro ⟨s, hs, pointer, h, hname⟩
    exact ⟨pointer, ⟨s, hs, h⟩, hname⟩
  · rintro ⟨pointer, ⟨s, hs, h⟩, hname⟩
    exact ⟨s, hs, pointer, h, hname⟩

/-! ### Walks see what is kept -/

namespace Document

theorem mem_endpoints {d : Document} {e : Endpoint} (h : e ∈ d.endpoints) :
    (e.path, e.item) ∈ d.paths ∧ (e.method, e.operation) ∈ e.item.operations := by
  obtain ⟨⟨path, item⟩, hpath, h⟩ := List.mem_flatMap.mp h
  obtain ⟨⟨method, op⟩, hop, rfl⟩ := List.mem_map.mp h
  exact ⟨hpath, hop⟩

/-- A parameter stands where it is written, or among the shared ones. -/
theorem mem_of_resolveParameter {d : Document} {p q : Parameter}
    (h : d.resolveParameter p = some q) : q = p ∨ q ∈ d.components.parameters.map Prod.snd := by
  unfold resolveParameter at h
  split at h
  · exact .inl (Option.some.inj h).symm
  · obtain ⟨name, _, hlookup⟩ := Option.bind_eq_some_iff.mp h
    exact .inr (List.mem_map_of_mem (mem_of_lookup hlookup))

theorem mem_effectiveParameters {d : Document} {item : PathItem} {op : Operation} {p : Parameter}
    (h : p ∈ d.effectiveParameters item op) : p ∈ op.parameters ∨ p ∈ item.parameters ∨
      p ∈ d.components.parameters.map Prod.snd := by
  simp only [effectiveParameters, List.mem_append, List.mem_filter, List.mem_filterMap] at h
  rcases h with ⟨⟨q, hq, hresolve⟩, _⟩ | ⟨q, hq, hresolve⟩
  · rcases mem_of_resolveParameter hresolve with rfl | h
    · exact .inr (.inl hq)
    · exact .inr (.inr h)
  · rcases mem_of_resolveParameter hresolve with rfl | h
    · exact .inl hq
    · exact .inr (.inr h)

/-- The sites of an operation are sites of the document, and so are those of the parameters beside
it. -/
theorem mem_sites_of_endpoint {d : Document} {e : Endpoint} (he : e ∈ d.endpoints) {s : Schema}
    (h : s ∈ e.operation.sites ∨ s ∈ parameterSchemas e.item.parameters) : s ∈ d.sites := by
  obtain ⟨hpath, hop⟩ := mem_endpoints he
  refine List.mem_append_right _ (List.mem_flatMap.mpr ⟨_, hpath, ?_⟩)
  rcases h with h | h
  · exact List.mem_append_right _ (List.mem_flatMap.mpr ⟨_, hop, h⟩)
  · exact List.mem_append_left _ h

theorem mem_parameterSchemas {parameters : List Parameter} {s : Schema} :
    s ∈ parameterSchemas parameters ↔ ∃ p ∈ parameters, p.schema = some s := by
  simp [parameterSchemas]

theorem mem_sites_of_keptSchemas {d : Document} {e : Endpoint} (he : e ∈ d.endpoints) {s : Schema}
    (h : s ∈ d.keptSchemas e) : s ∈ d.sites := by
  simp only [keptSchemas, List.mem_append] at h
  rcases h with (h | h) | h
  · obtain ⟨p, hp, hs⟩ := mem_parameterSchemas.mp h
    rcases mem_effectiveParameters (List.mem_filter.mp hp).1 with hp | hp | hp
    · have hmem := mem_parameterSchemas.mpr ⟨p, hp, hs⟩
      exact mem_sites_of_endpoint he (.inl (by simp [Operation.sites, hmem]))
    · exact mem_sites_of_endpoint he (.inr (mem_parameterSchemas.mpr ⟨p, hp, hs⟩))
    · simp [sites, mem_parameterSchemas.mpr ⟨p, hp, hs⟩]
  · exact mem_sites_of_endpoint he (.inl (by simp [Operation.sites, h]))
  · obtain ⟨response, hresponse, hschema⟩ := Option.bind_eq_some_iff.mp (Option.mem_toList.mp h)
    refine mem_sites_of_endpoint he (.inl (List.mem_append_right _ (List.mem_flatMap.mpr ?_)))
    exact ⟨_, mem_of_lookup hresponse, Option.mem_toList.mpr hschema⟩

/-- What a walk of a kept schema object visits is visited in the walk of the document. -/
theorem visited_subset_of_kept {d : Document} {s : Schema} (h : s ∈ d.kept) :
    s.visited ⊆ d.sites.flatMap Schema.visited := by
  intro v hv
  rcases List.mem_append.mp h with h | h
  · have hsite : ∀ root ∈ d.components.schemas.map Prod.snd, root ∈ d.sites := by
      intro root hroot
      simp only [sites, List.mem_append]
      exact .inl (.inl hroot)
    rcases List.mem_append.mp h with h | h
    · exact List.mem_flatMap.mpr ⟨s, hsite s h, hv⟩
    · obtain ⟨⟨name, root⟩, hroot, h⟩ := List.mem_flatMap.mp h
      refine List.mem_flatMap.mpr ⟨root, hsite root (List.mem_map_of_mem hroot), ?_⟩
      rw [visited_eq]
      refine List.mem_cons_of_mem _ (List.mem_flatMap.mpr ⟨s, ?_, hv⟩)
      simp [Schema.parts, h]
  · obtain ⟨e, he, h⟩ := List.mem_flatMap.mp h
    exact List.mem_flatMap.mpr ⟨s, mem_sites_of_keptSchemas he h, hv⟩

/-- A walk of the document visits every reference that is handed on to the API. -/
theorem Keeps.visited {d : Document} {pointer : String} (h : d.Keeps pointer) :
    ∃ v ∈ d.walk, v.schema.reference = some pointer := by
  obtain ⟨s, hs, hkeeps⟩ := h
  obtain ⟨v, hv, href⟩ := hkeeps.visited
  have hwalk := visited_subset_of_kept hs hv
  rw [← map_walk_document] at hwalk
  obtain ⟨w, hw, rfl⟩ := List.mem_map.mp hwalk
  exact ⟨w, hw, href⟩

end Document

end TypedClient
