import TypedClient.Proofs.ClientClosure
import TypedClient.Proofs.DocumentKeys
import TypedClient.Proofs.Lowering
import TypedClient.Proofs.OperationSources

/-! The fields of generated interfaces and their names. The interface of a schema declares each of its
fields once, since the properties of a schema that was read have distinct names. A request takes its
path parameters as fields beside `query` and `body`, and its query parameters as the fields of
`query`. Parameters of the path item never meet those of the operation, which displace them; so a name
is repeated only when one of the two lists repeats it, or when a path parameter is called like one of
the two fields. -/

namespace TypedClient

open Document Model TypeScript

/-! ### Parameters of an operation -/

namespace Document

variable {place : Place} {ps qs : List Parameter} {name : String}

theorem mem_carriedNames : name ∈ carriedNames place ps ↔
    name ≠ "" ∧ ∃ p ∈ ps, p.place = some place ∧ p.name = some name := by
  simp only [carriedNames, List.mem_filter, List.mem_filterMap, decide_eq_true_eq, beq_iff_eq]
  rw [and_comm]
  simp only [and_assoc]

theorem carriedNames_append :
    carriedNames place (ps ++ qs) = carriedNames place ps ++ carriedNames place qs := by
  simp [carriedNames]

/-- The parameters that an operation lists itself. -/
def ownParameters (d : Document) (op : Operation) : List Parameter :=
  op.parameters.filterMap d.resolveParameter

/-- The parameters that an operation takes over from its path item. -/
def inheritedParameters (d : Document) (item : PathItem) (op : Operation) : List Parameter :=
  (item.parameters.filterMap d.resolveParameter).filter fun p =>
    !(d.ownParameters op).any (·.sameSlot p)

theorem effectiveParameters_eq (d : Document) (item : PathItem) (op : Operation) :
    d.effectiveParameters item op = d.inheritedParameters item op ++ d.ownParameters op := rfl

/-- No name of a place is inherited that the operation gives itself. -/
theorem disjoint_carriedNames (d : Document) (item : PathItem) (op : Operation) (place : Place) :
    (carriedNames place (d.inheritedParameters item op)).Disjoint
      (carriedNames place (d.ownParameters op)) := by
  intro name hinherited hown
  obtain ⟨_, p, hp, hplace, hname⟩ := mem_carriedNames.mp hinherited
  obtain ⟨_, q, hq, hplace', hname'⟩ := mem_carriedNames.mp hown
  have hkept := (List.mem_filter.mp hp).2
  have hslot : q.sameSlot p = true := by
    simp [Parameter.sameSlot, hname, hname', hplace, hplace']
  have hany : (d.ownParameters op).any (·.sameSlot p) = true := List.any_eq_true.mpr ⟨q, hq, hslot⟩
  simp [hany] at hkept

/-- Neither the parameters that an operation lists itself nor those that it takes over from its path
item repeat a name of a place. -/
structure NamesOnce (d : Document) (e : Endpoint) (place : Place) : Prop where
  inherited : (carriedNames place (d.inheritedParameters e.item e.operation)).Nodup
  own : (carriedNames place (d.ownParameters e.operation)).Nodup

theorem namesOnce_iff (d : Document) (e : Endpoint) (place : Place) : d.NamesOnce e place ↔
    (carriedNames place (d.effectiveParameters e.item e.operation)).Nodup := by
  rw [effectiveParameters_eq, carriedNames_append, List.nodup_append']
  exact ⟨fun h => ⟨h.inherited, h.own, disjoint_carriedNames d _ _ place⟩,
    fun h => ⟨h.1, h.2.1⟩⟩

end Document

/-- The path parameters of an operation have names of their own as fields of its request: they are
named once, and none is called like a field that stands beside them. -/
structure Document.NamesApart (d : Document) (e : Endpoint) : Prop where
  once : d.NamesOnce e .path
  query : carriedNames .query (d.effectiveParameters e.item e.operation) ≠ [] →
    "query" ∉ carriedNames .path (d.effectiveParameters e.item e.operation)
  body : e.operation.requestBody.isSome = true →
    "body" ∉ carriedNames .path (d.effectiveParameters e.item e.operation)

/-! ### Fields of a request -/

namespace TypeScript.Signature

variable (s : Signature)

theorem names_requestFields : s.requestFields.map Field.name =
    s.pathParams.map (·.name) ++ ((if s.hasQuery then ["query"] else []) ++
      if s.hasBody then ["body"] else []) := by
  have hpath : (s.pathParams.map (paramField false)).map Field.name = s.pathParams.map (·.name) := by
    rw [List.map_map]
    rfl
  rw [requestFields, List.append_assoc, List.map_append, List.map_append, hpath, hasBody]
  cases s.hasQuery <;> cases s.bodyType <;> rfl

/-- A name is repeated among path parameters, or one of them is called like another field. -/
theorem nodup_names_requestFields : (s.requestFields.map Field.name).Nodup ↔
    (s.pathParams.map (·.name)).Nodup ∧
      (s.hasQuery = true → "query" ∉ s.pathParams.map (·.name)) ∧
      (s.hasBody = true → "body" ∉ s.pathParams.map (·.name)) := by
  rw [names_requestFields, List.nodup_append']
  cases s.hasQuery <;> cases s.hasBody <;> simp

/-- The fields of the nested object are the query parameters. -/
theorem names_of_nested_mem {name : String} {optional : Bool} {comments : List String}
    {fields : List Field} (h : .nested name optional comments fields ∈ s.requestFields) :
    fields.map Field.name = s.queryParams.map (·.name) := by
  have hquery : fields = s.queryParams.map fun p => paramField (!p.required) p := by
    unfold requestFields at h
    cases hq : s.hasQuery <;> cases hb : s.bodyType <;> simp_all [paramField]
  rw [hquery, List.map_map]
  rfl

end TypeScript.Signature

/-! ### Generated interfaces -/

section Generated

variable {text : String} {d : Document}

/-- The interface of a schema declares each of its fields once. -/
theorem nodup_names_schema (hread : Document.ofText text = .ok d) (config : Config) (now : String)
    {i : Interface} (hi : .interface i ∈ (d.generator config now).typesDocument.schemas) :
    (i.fields.map Field.name).Nodup := by
  obtain ⟨entry, hentry, hdeclared⟩ := List.mem_map.mp hi
  rw [Document.generator, entries_catalog] at hentry
  obtain ⟨⟨key, schema⟩, hschema, rfl⟩ := List.mem_map.mp hentry
  have hnames : ((Fields.ofDocument schema).properties.map Prod.fst).Nodup := by
    rw [Fields.ofDocument, optionalProperties_eq, List.map_map]
    cases hproperties : schema.properties with
    | none => exact List.nodup_nil
    | some properties =>
      exact hasDistinctProperties_ofText hread (key, schema) hschema properties hproperties
  unfold Declaration.ofEntry at hdeclared
  dsimp only at hdeclared
  split at hdeclared
  · exact Declaration.noConfusion hdeclared
  · obtain rfl := Declaration.interface.inj hdeclared
    rw [List.map_map]
    exact hnames

/-- The operation of generated types. -/
theorem exists_endpoint {config : Config} {now : String} {n : Nat} {types : EndpointTypes}
    (h : (d.generator config now).typesDocument.endpoints[n]? = some types) :
    ∃ e, d.endpoints[n]? = some e ∧
      types.request = (Signature.ofOperation config.generation (.ofDocument d e)).request := by
  have hmap : (d.generator config now).typesDocument.endpoints =
      d.endpoints.map fun e => ⟨(Signature.ofOperation config.generation (.ofDocument d e)).request,
        (Signature.ofOperation config.generation (.ofDocument d e)).response⟩ := by
    simp [Generator.typesDocument, Generator.signatures, generator, Api.ofDocument]
  rw [hmap, List.getElem?_map, Option.map_eq_some_iff] at h
  obtain ⟨e, he, rfl⟩ := h
  exact ⟨e, he, rfl⟩

theorem names_pathParams (settings : Config.Generation) (d : Document) (e : Endpoint) :
    (Signature.ofOperation settings (.ofDocument d e)).pathParams.map (·.name) =
      carriedNames .path (d.effectiveParameters e.item e.operation) := by
  rw [Signature.ofOperation, List.map_map]
  exact names_ofDocument d e .path

theorem names_queryParams (settings : Config.Generation) (d : Document) (e : Endpoint) :
    (Signature.ofOperation settings (.ofDocument d e)).queryParams.map (·.name) =
      carriedNames .query (d.effectiveParameters e.item e.operation) := by
  rw [Signature.ofOperation, List.map_map]
  exact names_ofDocument d e .query

theorem nodup_names_request_iff (settings : Config.Generation) (d : Document) (e : Endpoint) :
    ((Signature.ofOperation settings (.ofDocument d e)).requestFields.map Field.name).Nodup ↔
      d.NamesApart e := by
  have hquery : (Signature.ofOperation settings (.ofDocument d e)).hasQuery = true ↔
      carriedNames .query (d.effectiveParameters e.item e.operation) ≠ [] := by
    rw [← names_queryParams settings, Signature.hasQuery]
    simp
  have hbody : (Signature.ofOperation settings (.ofDocument d e)).hasBody =
      e.operation.requestBody.isSome := by
    simp [Signature.hasBody, Signature.ofOperation, Operation.ofDocument]
  rw [Signature.nodup_names_requestFields, names_pathParams, hquery, hbody, ← namesOnce_iff]
  exact ⟨fun h => ⟨h.1, h.2.1, h.2.2⟩, fun h => ⟨h.once, h.query, h.body⟩⟩

/-- Which fields generated interfaces repeat, for a document as it is read. The interface of a schema
repeats none. The request of an operation repeats none exactly when its path parameters have names of
their own, and the nested object of its query repeats none exactly when the operation names its query
parameters once. -/
theorem fieldNames_nodup_iff (hread : Document.ofText text = .ok d) (config : Config) (now : String) :
    (∀ i, .interface i ∈ (d.generator config now).typesDocument.schemas →
        (i.fields.map Field.name).Nodup) ∧
      ∀ (n : Nat) (types : EndpointTypes),
        (d.generator config now).typesDocument.endpoints[n]? = some types →
          ∃ e, d.endpoints[n]? = some e ∧ ∀ i ∈ types.request,
            ((i.fields.map Field.name).Nodup ↔ d.NamesApart e) ∧
              ∀ name optional comments fields, .nested name optional comments fields ∈ i.fields →
                ((fields.map Field.name).Nodup ↔ d.NamesOnce e .query) := by
  refine ⟨fun i hi => nodup_names_schema hread config now hi, fun n types htypes => ?_⟩
  obtain ⟨e, he, hrequest⟩ := exists_endpoint htypes
  refine ⟨e, he, fun i hi => ?_⟩
  rw [hrequest] at hi
  obtain ⟨_, rfl⟩ := Signature.mem_request.mp hi
  refine ⟨nodup_names_request_iff config.generation d e, fun name optional comments fields h => ?_⟩
  rw [Signature.names_of_nested_mem _ h, names_queryParams, namesOnce_iff]

end Generated

/-- The text of a document with an operation that takes two query parameters of the given names. -/
def pagesText (first second : String) : String :=
  r#"{"paths": {"/pets": {"get": {"parameters": [{"name": ""# ++ first ++
    r#"", "in": "query"}, {"name": ""# ++ second ++
    r#"", "in": "query"}]}}}}"#

def pagesParameter (name : String) : Document.Parameter :=
  ⟨none, some name, some .query, false, none, none⟩

def pagesEndpoint (first second : String) : Endpoint :=
  let get : Document.Operation :=
    ⟨none, none, none, [pagesParameter first, pagesParameter second], none, []⟩
  ⟨"/pets", .get, get, ⟨[], [(.get, get)], []⟩⟩

def pagesDocument (first second : String) : Document :=
  { Document.empty with paths := [("/pets", (pagesEndpoint first second).item)] }

/-- The signature of the one operation of such a document. -/
def pagesSignature (first second : String) : Signature :=
  .ofOperation Config.default.generation
    (.ofDocument (pagesDocument first second) (pagesEndpoint first second))

set_option maxRecDepth 8000 in
theorem pagesDocument_fieldNames :
    Document.ofText (pagesText "limit" "offset") = .ok (pagesDocument "limit" "offset") ∧
      ∃ types, ((pagesDocument "limit" "offset").generator .default "").typesDocument.endpoints[0]? =
        some types ∧ ∃ i ∈ types.request, (i.fields.map Field.name).Nodup ∧
          ∃ optional comments fields, .nested "query" optional comments fields ∈ i.fields ∧
            (fields.map Field.name).Nodup := by
  have hread : Document.ofText (pagesText "limit" "offset") = .ok (pagesDocument "limit" "offset") :=
    rfl
  obtain ⟨_, hall⟩ := fieldNames_nodup_iff hread .default ""
  obtain ⟨e, he, hfields⟩ := hall 0 _ rfl
  obtain rfl : pagesEndpoint "limit" "offset" = e := Option.some.inj he
  obtain ⟨hrequest, hnested⟩ := hfields _ rfl
  have hpath : (pagesDocument "limit" "offset").NamesApart (pagesEndpoint "limit" "offset") :=
    ⟨(namesOnce_iff ..).mpr (by decide +kernel), fun _ => by decide +kernel, fun h => nomatch h⟩
  have hquery : (pagesDocument "limit" "offset").NamesOnce (pagesEndpoint "limit" "offset") .query :=
    (namesOnce_iff ..).mpr (by decide +kernel)
  obtain ⟨optional, comments, fields, hmem⟩ :=
    (Signature.hasQueryObject_requestFields (pagesSignature "limit" "offset")).mpr rfl
  exact ⟨hread, _, rfl, _, rfl, hrequest.mpr hpath, optional, comments, fields, hmem,
    (hnested _ _ _ _ hmem).mpr hquery⟩

set_option maxRecDepth 8000 in
/-- An operation lists a query parameter twice, and the nested object has two fields of its name. -/
theorem limit_repeated :
    Document.ofText (pagesText "limit" "limit") = .ok (pagesDocument "limit" "limit") ∧
      ∃ types, ((pagesDocument "limit" "limit").generator .default "").typesDocument.endpoints[0]? =
        some types ∧ ∃ i ∈ types.request, ∃ optional comments fields,
          .nested "query" optional comments fields ∈ i.fields ∧
            ¬(fields.map Field.name).Nodup := by
  obtain ⟨optional, comments, fields, hmem⟩ :=
    (Signature.hasQueryObject_requestFields (pagesSignature "limit" "limit")).mpr rfl
  have hnames : fields.map Field.name = ["limit", "limit"] := Signature.names_of_nested_mem _ hmem
  refine ⟨rfl, _, rfl, _, rfl, optional, comments, fields, hmem, ?_⟩
  rw [hnames]
  decide

end TypedClient
