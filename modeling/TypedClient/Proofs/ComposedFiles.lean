import Mathlib.Logic.Basic
import TypedClient.Proofs.Ampersands
import TypedClient.Proofs.Lowering
import TypedClient.Proofs.SchemaMeaning
import TypedClient.Proofs.TypesBlocks

/-! The two ways to join compositions, and the files that a run has under each. A type has more
ampersands under the second exactly when the schema holds a composition of several branches, at any
depth, and is the same otherwise. This goes through to declarations, to blocks and to the types
document; the client spells no types out. -/

namespace TypedClient

open Config

theorem exists_mem_flatMap {α β : Type} {l : List α} {f : α → List β} {P : β → Prop} :
    (∃ b ∈ l.flatMap f, P b) ↔ ∃ a ∈ l, ∃ b ∈ f a, P b := by
  simp only [List.mem_flatMap]
  constructor
  · rintro ⟨b, ⟨a, ha, hb⟩, h⟩
    exact ⟨a, ha, b, hb, h⟩
  · rintro ⟨a, ha, b, hb, h⟩
    exact ⟨b, ⟨a, ha, hb⟩, h⟩

namespace Model

/-- The shape is a composition of several branches. -/
def Shape.IsJoint : Shape → Prop
  | .composed branches => 2 ≤ branches.length
  | _ => False

theorem Shape.IsJoint.exists_branches {shape : Shape} (h : shape.IsJoint) :
    ∃ branches, shape = .composed branches := by
  cases shape with
  | composed branches => exact ⟨branches, rfl⟩
  | _ => nomatch h

/-- The schema holds a composition of several branches, at any depth. -/
inductive Schema.Joins : Schema → Prop
  | here {s : Schema} (h : s.shape.IsJoint) : Joins s
  | child {s child : Schema} (hchild : child ∈ s.shape.children) (h : Joins child) : Joins s

theorem Schema.joins_iff {shape : Shape} {description : Option String} :
    (Schema.mk shape description).Joins ↔
      shape.IsJoint ∨ ∃ child ∈ shape.children, child.Joins := by
  constructor
  · intro h
    cases h with
    | here h => exact .inl h
    | child hchild h => exact .inr ⟨_, hchild, h⟩
  · rintro (h | ⟨child, hchild, h⟩)
    · exact .here h
    · exact .child hchild h

end Model

namespace TypeScript

open Model Code

/-! ### Types -/

theorem grows_fieldTypes (required : List String) {properties : List (String × Schema)}
    (h : ∀ p ∈ properties,
      Grows ampersands p.2.Joins (schemaType .first p.2) (schemaType .intersection p.2)) :
    Grows (total fun field => ampersands field.text) (∃ p ∈ properties, p.2.Joins)
      (fieldTypes .first required properties) (fieldTypes .intersection required properties) := by
  have hfield : ∀ name optional type, ampersands (TypeExpr.Field.text ⟨name, optional, type⟩) =
      ampersands type + ampersands (propertyKey name ++ (if optional then "?" else "") ++ ": ") := by
    intro name optional type
    rw [TypeExpr.Field.text, ampersands_append]
    exact Nat.add_comm ..
  rw [fieldTypes_eq, fieldTypes_eq]
  refine Grows.list fun p hp => ?_
  exact (h p hp).map (f := fun type => TypeExpr.Field.mk p.1 (!required.contains p.1) type)
    (hfield p.1 (!required.contains p.1))

/-- The type of a schema grows where the schema holds a composition of several branches. -/
theorem grows_schemaType (s : Schema) :
    Grows ampersands s.Joins (schemaType .first s) (schemaType .intersection s) := by
  induction s using Schema.byChildren with
  | step shape description ih =>
    have hplain : shapeType .first shape = shapeType .intersection shape →
        shape.children = [] → ¬shape.IsJoint →
        Grows ampersands (Schema.mk shape description).Joins
          (schemaType .first (.mk shape description))
          (schemaType .intersection (.mk shape description)) := by
      intro htype hchildren hjoint
      rw [schemaType, schemaType, htype]
      exact (Grows.refl _).congr (by simp [Schema.joins_iff, hchildren, hjoint])
    -- What has no children has the same type under both.
    cases shape with
    | reference name => exact hplain rfl rfl id
    | scalar kind => exact hplain rfl rfl id
    | literals values => exact hplain rfl rfl id
    | unknown => exact hplain rfl rfl id
    | array item =>
      have hitem := grows_array (ih item (List.mem_singleton.mpr rfl))
      exact hitem.congr (by simp [Schema.joins_iff, Shape.IsJoint, Shape.children])
    | object properties required =>
      cases properties with
      | nil => exact hplain rfl rfl id
      | cons property properties =>
        have hfields := grows_fieldTypes required fun p hp =>
          ih p.2 (List.mem_map_of_mem (f := Prod.snd) hp)
        have htype := hfields.map (f := TypeExpr.object) (k := 0) ampersands_object
        refine htype.congr ?_
        simp only [Schema.joins_iff, Shape.IsJoint, Shape.children, List.mem_map,
          exists_exists_and_eq_and, false_or]
    | composed branches =>
      have hbranches := grows_composeTypes fun branch hbranch => ih branch hbranch
      rw [← branchTypes_eq, ← branchTypes_eq] at hbranches
      exact hbranches.congr (by simp [Schema.joins_iff, Shape.IsJoint, Shape.children])

theorem grows_optionalType (s : Option Schema) :
    Grows ampersands (∃ root ∈ s.toList, root.Joins) (optionalType .first s)
      (optionalType .intersection s) := by
  cases s with
  | none => exact (Grows.refl _).congr (by simp)
  | some s => exact (grows_schemaType s).congr (by simp)

/-! ### Declarations -/

theorem grows_fields {γ : Type} {P : γ → Prop} {f g : γ → Field} {l : List γ}
    (h : ∀ x ∈ l, Grows fieldAmpersands (P x) [f x] [g x]) :
    Grows fieldAmpersands (∃ x ∈ l, P x) (l.map f) (l.map g) := by
  rw [List.map_eq_flatMap, List.map_eq_flatMap]
  exact Grows.flatMap fieldAmpersands_append h

theorem grows_plain {p : Prop} {type type' : String} (name : String) (optional : Bool)
    (comments : List String) (h : Grows ampersands p type type') :
    Grows fieldAmpersands p [.plain name optional comments type]
      [.plain name optional comments type'] :=
  h.map (f := fun type => [Field.plain name optional comments type])
    (fieldAmpersands_plain name optional comments)

/-- A list of literals holds no composition. The other declarations show the properties. -/
theorem grows_ofEntry (entry : Model.Entry) :
    Grows declarationAmpersands
      (entry.schema.isLiterals = false ∧ ∃ p ∈ entry.fields.properties, p.2.Joins)
      (.ofEntry .first entry) (.ofEntry .intersection entry) := by
  unfold Declaration.ofEntry
  cases h : entry.schema.isLiterals with
  | true =>
    have htype : schemaType .first entry.schema = schemaType .intersection entry.schema := by
      obtain ⟨name, ⟨shape, description⟩, fields⟩ := entry
      cases shape with
      | literals values => rfl
      | _ => nomatch h
    simp only [htype, if_true]
    exact (Grows.refl _).congr (by simp)
  | false =>
    have hfields := grows_fields (l := entry.fields.properties) fun p _ =>
      grows_plain p.1 (!entry.fields.required.contains p.1) (Text.noteLines p.2.description)
        (grows_schemaType p.2)
    have hdeclaration := hfields.map
      (f := fun fields => Declaration.interface
        ⟨entry.name, Text.noteLines entry.schema.description, fields⟩)
      (declarationAmpersands_interface entry.name (Text.noteLines entry.schema.description))
    exact hdeclaration.congr (by simp)

/-! ### Operations -/

/-- The signature of an operation under the settings that its types depend on. -/
def composedSignature (rule : QueryField) (op : Operation) (compose : Compose) : Signature :=
  .ofOperation { Generation.default with compose := compose, queryField := rule } op

theorem grows_paramField (optional : Bool) (p : Model.Parameter) :
    Grows fieldAmpersands (∃ root ∈ p.schema.toList, root.Joins)
      [paramField optional (.ofParameter .first p)]
      [paramField optional (.ofParameter .intersection p)] :=
  grows_plain p.name optional (Text.noteLines p.description) (grows_optionalType p.schema)

theorem queryOptional_ofParameter (rule : QueryField) (compose : Compose)
    (parameters : List Model.Parameter) :
    queryOptional rule (parameters.map (.ofParameter compose)) =
      match rule with
      | .required => false
      | .optionalWhenAllOptional => !parameters.isEmpty && parameters.all fun p => !p.required := by
  cases rule with
  | required => rfl
  | optionalWhenAllOptional =>
    rw [queryOptional, List.isEmpty_map, List.all_map]
    rfl

/-- The nested query of a request, if there is one. -/
def nestedQuery (rule : QueryField) (op : Operation) (compose : Compose) : List Field :=
  let signature := composedSignature rule op compose
  if signature.hasQuery then
    [.nested "query" signature.queryOptional []
      (signature.queryParams.map fun p => paramField (!p.required) p)]
  else []

theorem grows_nestedQuery (rule : QueryField) (op : Operation) :
    Grows fieldAmpersands (∃ p ∈ op.queryParameters, ∃ root ∈ p.schema.toList, root.Joins)
      (nestedQuery rule op .first) (nestedQuery rule op .intersection) := by
  have hhas : ∀ compose, (composedSignature rule op compose).hasQuery = !op.queryParameters.isEmpty := by
    intro compose
    rw [composedSignature, Signature.ofOperation, Signature.hasQuery, List.isEmpty_map]
  have hoptional : ∀ compose, (composedSignature rule op compose).queryOptional =
      (composedSignature rule op .first).queryOptional := by
    intro compose
    simp only [composedSignature, Signature.ofOperation, queryOptional_ofParameter]
  have hparams : ∀ compose, (composedSignature rule op compose).queryParams.map
        (fun p => paramField (!p.required) p) =
      op.queryParameters.map fun p => paramField (!p.required) (.ofParameter compose p) := by
    intro compose
    rw [composedSignature, Signature.ofOperation, List.map_map]
    rfl
  simp only [nestedQuery, hhas, hoptional .intersection, hparams]
  cases hempty : op.queryParameters.isEmpty with
  | true =>
    refine (Grows.refl _).congr ?_
    simp [List.isEmpty_iff.mp hempty]
  | false =>
    have hfields := grows_fields (l := op.queryParameters) fun p _ => grows_paramField (!p.required) p
    exact hfields.map (f := fun fields => [Field.nested "query" _ [] fields])
      (fieldAmpersands_nested "query" _ [])

theorem grows_bodyField (rule : QueryField) (op : Operation) :
    Grows fieldAmpersands (∃ root ∈ (op.requestBody.bind (·.schema)).toList, root.Joins)
      ((composedSignature rule op .first).bodyType.toList.map (Field.plain "body" false []))
      ((composedSignature rule op .intersection).bodyType.toList.map (Field.plain "body" false [])) := by
  cases h : op.requestBody with
  | none =>
    simp only [composedSignature, Signature.ofOperation, h]
    exact (Grows.refl _).congr (by simp)
  | some body =>
    simp only [composedSignature, Signature.ofOperation, h]
    exact grows_plain "body" false [] (grows_optionalType body.schema)

/-- The fields of a request grow where a schema of a parameter or of the body does. -/
theorem grows_requestFields (rule : QueryField) (op : Operation) :
    Grows fieldAmpersands
      (∃ root ∈ op.parameters.flatMap (fun p => p.schema.toList) ++
        (op.requestBody.bind (·.schema)).toList, root.Joins)
      (composedSignature rule op .first).requestFields
      (composedSignature rule op .intersection).requestFields := by
  have hfields : ∀ compose, (composedSignature rule op compose).requestFields =
      op.pathParameters.map (fun p => paramField false (.ofParameter compose p)) ++
        nestedQuery rule op compose ++
          (composedSignature rule op compose).bodyType.toList.map (Field.plain "body" false []) := by
    intro compose
    have hpath : (composedSignature rule op compose).pathParams.map (paramField false) =
        op.pathParameters.map fun p => paramField false (.ofParameter compose p) := by
      rw [composedSignature, Signature.ofOperation, List.map_map]
      rfl
    rw [Signature.requestFields, hpath, nestedQuery]
    cases (composedSignature rule op compose).bodyType <;> rfl
  have hplaces : (∃ p ∈ op.pathParameters, ∃ root ∈ p.schema.toList, root.Joins) ∨
      (∃ p ∈ op.queryParameters, ∃ root ∈ p.schema.toList, root.Joins) ↔
        ∃ root ∈ op.parameters.flatMap fun p => p.schema.toList, root.Joins := by
    rw [exists_mem_flatMap]
    constructor
    · rintro (⟨p, hp, h⟩ | ⟨p, hp, h⟩) <;> exact ⟨p, (List.mem_filter.mp hp).1, h⟩
    · rintro ⟨p, hp, h⟩
      cases hplace : p.place with
      | path => exact .inl ⟨p, List.mem_filter.mpr ⟨hp, by simp [hplace]⟩, h⟩
      | query => exact .inr ⟨p, List.mem_filter.mpr ⟨hp, by simp [hplace]⟩, h⟩
  rw [hfields, hfields]
  have hpath := grows_fields (l := op.pathParameters) fun p _ => grows_paramField false p
  have hparameters := hpath.combine fieldAmpersands_append (grows_nestedQuery rule op)
  refine (hparameters.combine fieldAmpersands_append (grows_bodyField rule op)).congr ?_
  rw [hplaces]
  simp only [List.mem_append, or_and_right, exists_or]

theorem grows_request (rule : QueryField) (op : Operation) :
    Grows (total declarationAmpersands)
      (∃ root ∈ op.parameters.flatMap (fun p => p.schema.toList) ++
        (op.requestBody.bind (·.schema)).toList, root.Joins)
      ((composedSignature rule op .first).request.map Declaration.interface).toList
      ((composedSignature rule op .intersection).request.map Declaration.interface).toList := by
  have hinput : ∀ compose, (composedSignature rule op compose).takesInput = op.takesInput :=
    fun _ => rfl
  have hname : ∀ compose, (composedSignature rule op compose).requestName =
      (composedSignature rule op .first).requestName := fun _ => rfl
  simp only [Signature.request, hinput, hname .intersection]
  cases h : op.takesInput with
  | true =>
    have hdeclaration := (grows_requestFields rule op).map
      (f := fun fields =>
        Declaration.interface ⟨(composedSignature rule op .first).requestName, [], fields⟩)
      (declarationAmpersands_interface (composedSignature rule op .first).requestName [])
    exact hdeclaration.single
  | false =>
    rw [Operation.takesInput, Bool.or_eq_false_iff] at h
    obtain ⟨hparameters, hbody⟩ := h
    refine (Grows.refl _).congr ?_
    have hparameters : op.parameters = [] := by simpa using hparameters
    have hbody : op.requestBody = none := by simpa using hbody
    simp [hparameters, hbody]

/-- The declarations of an operation grow where one of its schemas does. -/
theorem grows_declarations (rule : QueryField) (op : Operation) :
    Grows (total declarationAmpersands) (∃ root ∈ op.schemas, root.Joins)
      (EndpointTypes.mk (composedSignature rule op .first).request
        (composedSignature rule op .first).response).declarations
      (EndpointTypes.mk (composedSignature rule op .intersection).request
        (composedSignature rule op .intersection).response).declarations := by
  have halias : ∀ compose, (composedSignature rule op compose).response =
      ⟨(composedSignature rule op .first).responseName, [], optionalType compose op.response⟩ :=
    fun _ => rfl
  have hresponse : Grows (total declarationAmpersands) (∃ root ∈ op.response.toList, root.Joins)
      [.alias (composedSignature rule op .first).response]
      [.alias (composedSignature rule op .intersection).response] := by
    rw [halias .intersection, halias .first]
    have hdeclaration := (grows_optionalType op.response).map
      (f := fun type => Declaration.alias ⟨(composedSignature rule op .first).responseName, [], type⟩)
      (declarationAmpersands_alias (composedSignature rule op .first).responseName [])
    exact hdeclaration.single
  have hboth := (grows_request rule op).combine (total_append declarationAmpersands) hresponse
  have hschemas : (∃ root ∈ op.schemas, root.Joins) ↔
      (∃ root ∈ op.parameters.flatMap (fun p => p.schema.toList) ++
        (op.requestBody.bind (·.schema)).toList, root.Joins) ∨
        ∃ root ∈ op.response.toList, root.Joins := by
    rw [Operation.schemas]
    simp only [List.mem_append, or_and_right, exists_or]
  exact hboth.congr hschemas.symm

end TypeScript

/-! ### Documents -/

namespace Document

open Model TypeScript

/-- The schema objects of a document whose types are spelled out: the properties of its schemas, apart
from lists of literals, and the schemas of its operations. -/
def spelled (d : Document) : List Schema :=
  d.components.schemas.flatMap (fun (_, s) =>
      if (Schema.ofDocument s).isLiterals then [] else s.propertySchemas) ++
    d.endpoints.flatMap d.keptSchemas

theorem exists_property_ofDocument (s : Schema) :
    (∃ p ∈ (Fields.ofDocument s).properties, p.2.Joins) ↔
      ∃ part ∈ s.propertySchemas, (Schema.ofDocument part).Joins := by
  simp only [Fields.ofDocument, optionalProperties_eq, Schema.propertySchemas, List.mem_map,
    exists_exists_and_eq_and]

theorem grows_schemaBlock (name : String) (s : Document.Schema) :
    Grows ampersands
      (∃ part ∈ if (Schema.ofDocument s).isLiterals then [] else s.propertySchemas,
        (Schema.ofDocument part).Joins)
      (schemaBlock .first name s) (schemaBlock .intersection name s) := by
  have hproperties : (∃ p ∈ (Entry.ofDocument name s).fields.properties, p.2.Joins) ↔
      ∃ part ∈ s.propertySchemas, (Schema.ofDocument part).Joins := exists_property_ofDocument s
  have hliterals : (Entry.ofDocument name s).schema.isLiterals = (Schema.ofDocument s).isLiterals := rfl
  have hblock : Grows ampersands _ (schemaBlock .first name s) (schemaBlock .intersection name s) :=
    (grows_ofEntry (.ofDocument name s)).map (f := declarationBlock) (k := 0) fun _ => rfl
  refine hblock.congr ?_
  rw [hproperties, hliterals]
  cases (Schema.ofDocument s).isLiterals <;> simp

theorem grows_blocks (rule : QueryField) (s : OperationSource) :
    Grows (total ampersands) (∃ root ∈ s.toModel.schemas, root.Joins)
      (s.blocks .first rule) (s.blocks .intersection rule) := by
  have hblocks : ∀ declarations, total ampersands (declarations.map declarationBlock) =
      total declarationAmpersands declarations + 0 := total_map ampersands declarationBlock
  exact (grows_declarations rule s.toModel).map hblocks

end Document

/-- The settings with the given way to join compositions. -/
def Config.composing (config : Config) (compose : Compose) : Config :=
  { config with generation := { config.generation with compose := compose } }

section Run

open Model TypeScript

variable (d : Document) (config : Config) (now : String)

theorem grows_typesBlocks :
    Grows (total ampersands) (∃ root ∈ d.spelled, (Schema.ofDocument root).Joins)
      (d.typesBlocks (config.composing .first) now)
      (d.typesBlocks (config.composing .intersection) now) := by
  have hheader : ∀ compose, headerBlock (config.composing compose) d.info now =
      headerBlock config d.info now := fun _ => rfl
  have hblocks : ∀ compose, d.typesBlocks (config.composing compose) now =
      [headerBlock config d.info now] ++
        (d.components.schemas.map (fun (name, s) => schemaBlock compose name s) ++ [markerBlock] ++
          d.operationSources.flatMap (OperationSource.blocks compose config.generation.queryField)) := by
    intro compose
    rw [Document.typesBlocks, hheader, Document.operationBlocks, ← List.flatMap_def]
    rfl
  have hschemas := Grows.list (l := d.components.schemas) fun p _ =>
    Document.grows_schemaBlock p.1 p.2
  have hoperations := Grows.flatMap (total_append ampersands) (l := d.operationSources) fun s _ =>
    Document.grows_blocks config.generation.queryField s
  have hsources : (∃ s ∈ d.operationSources, ∃ root ∈ s.toModel.schemas, root.Joins) ↔
      ∃ root ∈ d.endpoints.flatMap d.keptSchemas, (Schema.ofDocument root).Joins := by
    have hmodel : ∀ e, (d.operationSource e).toModel.schemas =
        (d.keptSchemas e).map Schema.ofDocument := schemas_operation d
    simp only [Document.operationSources, exists_mem_flatMap, hmodel, List.mem_map,
      exists_exists_and_eq_and]
  have hmarked := hschemas.combine (total_append ampersands) (Grows.refl [markerBlock])
  have hbelow := hmarked.combine (total_append ampersands) hoperations
  have hall := (Grows.refl [headerBlock config d.info now]).combine (total_append ampersands) hbelow
  rw [hblocks, hblocks]
  refine hall.congr ?_
  rw [hsources, ← exists_mem_flatMap]
  simp only [Document.spelled, List.mem_append, or_and_right, exists_or, or_false, false_or]

/-- The client does not depend on how compositions are joined: it names types and spells none out. -/
theorem clientDocument_composing (compose : Compose) :
    (d.generator (config.composing compose) now).clientDocument =
      (d.generator config now).clientDocument := by
  have hfunction : ∀ op : Operation,
      (Signature.ofOperation (config.composing compose).generation op).function =
        (Signature.ofOperation config.generation op).function := by
    intro op
    simp only [Signature.function, Signature.call, Signature.template, Signature.options,
      Signature.hasQuery, Signature.hasBody, Signature.ofOperation, List.map_map, List.isEmpty_map,
      Option.isSome_map]
    rfl
  have hfunctions : (d.generator (config.composing compose) now).signatures.map (·.function) =
      (d.generator config now).signatures.map (·.function) := by
    rw [Document.signatures_generator, Document.signatures_generator, List.map_map, List.map_map]
    exact List.map_congr_left fun s _ => hfunction s.toModel
  rw [Generator.clientDocument, hfunctions]
  rfl

/-- The files are the same unless a type that is spelled out holds a composition of several
branches. -/
theorem files_composing_iff : (d.generator (config.composing .first) now).files =
      (d.generator (config.composing .intersection) now).files ↔
    ¬∃ root ∈ d.spelled, (Schema.ofDocument root).Joins := by
  have hrender : ∀ config : Config, (d.generator config now).typesDocument.render =
      "\n".intercalate (d.typesBlocks config now) := by
    intro config
    rw [TypesDocument.render, Module.render_eq_intercalate, d.render_sections]
  have htypes : Grows ampersands (∃ root ∈ d.spelled, (Schema.ofDocument root).Joins)
      (d.generator (config.composing .first) now).typesDocument.render
      (d.generator (config.composing .intersection) now).typesDocument.render := by
    rw [hrender, hrender]
    exact (grows_typesBlocks d config now).map (k := 0) (ampersands_intercalate (by decide))
  have hfiles : ∀ compose, (d.generator (config.composing compose) now).files =
      [⟨config.output.types, (d.generator (config.composing compose) now).typesDocument.render⟩,
        ⟨config.output.client, (d.generator config now).clientDocument.render⟩,
        ⟨config.output.service, serviceModule.render⟩] := by
    intro compose
    rw [Generator.files, clientDocument_composing]
    rfl
  rw [hfiles, hfiles, ← htypes.eq_iff]
  simp

end Run

end TypedClient
