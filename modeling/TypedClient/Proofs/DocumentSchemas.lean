import Mathlib.Data.List.Basic
import TypedClient.Document.Walk

/-! Schema objects by their parts: the schema objects directly inside one, the steps that lead to
them, and induction over them. A walk visits a schema object, then what it visits in each part; a
walk of a document visits what it visits at each of its sites. What is visited does not depend on
locations. -/

namespace TypedClient.Document

namespace Schema

def propertySchemas (s : Schema) : List Schema := (s.properties.getD []).map Prod.snd

/-- The schema objects directly inside a schema object, in the order of a walk. -/
def parts (s : Schema) : List Schema :=
  s.items.toList ++ s.propertySchemas ++ s.allOf.getD [] ++ s.oneOf.getD [] ++ s.anyOf.getD []

theorem sizeOf_branch {branches : Option (List Schema)} {part : Schema}
    (h : part ∈ branches.getD []) : sizeOf part < sizeOf branches := by
  cases branches with
  | none => simp at h
  | some branches =>
    have := List.sizeOf_lt_of_mem (show part ∈ branches from h)
    rw [Option.some.sizeOf_spec]
    omega

theorem sizeOf_property {properties : Option (List (String × Schema))} {part : Schema}
    (h : part ∈ (properties.getD []).map Prod.snd) : sizeOf part < sizeOf properties := by
  obtain ⟨⟨name, schema⟩, hp, rfl⟩ := List.mem_map.mp h
  cases properties with
  | none => simp at hp
  | some properties =>
    have := List.sizeOf_lt_of_mem (show (name, schema) ∈ properties from hp)
    simp only [Prod.mk.sizeOf_spec, Option.some.sizeOf_spec] at this ⊢
    omega

theorem sizeOf_part {s part : Schema} (h : part ∈ s.parts) : sizeOf part < sizeOf s := by
  obtain ⟨reference, type, literals, format, description, items, properties, required, allOf, oneOf,
    anyOf⟩ := s
  rw [Schema.mk.sizeOf_spec]
  simp only [parts, propertySchemas, List.mem_append] at h
  rcases h with (((h | h) | h) | h) | h
  · obtain rfl : items = some part := by simpa using h
    rw [Option.some.sizeOf_spec]
    omega
  · have := sizeOf_property h
    omega
  · have := sizeOf_branch h
    omega
  · have := sizeOf_branch h
    omega
  · have := sizeOf_branch h
    omega

/-- A property of schema objects holds of all when it holds of each whose parts have it. -/
@[elab_as_elim]
theorem byParts {P : Schema → Prop} (step : ∀ s, (∀ part ∈ s.parts, P part) → P s) (s : Schema) :
    P s :=
  step s fun part _ => byParts step part
termination_by sizeOf s
decreasing_by exact sizeOf_part ‹part ∈ s.parts›

end Schema

/-! ### Positions that are not looked at -/

theorem map_zipIdx {α β : Type} (l : List α) (f : α → β) : (l.zipIdx.map fun p => f p.1) = l.map f := by
  rw [← List.zipIdx_map_fst 0 l, List.map_map, List.zipIdx_map_fst]
  rfl

theorem flatMap_zipIdx {α β : Type} (l : List α) (f : α → List β) :
    (l.zipIdx.flatMap fun p => f p.1) = l.flatMap f := by
  rw [List.flatMap_def, map_zipIdx, ← List.flatMap_def]

/-! ### Steps into parts -/

/-- The keys of a schema object that hold a list of schema objects. -/
inductive BranchKey
  | allOf | oneOf | anyOf
  deriving DecidableEq

def BranchKey.name : BranchKey → String
  | .allOf => "allOf"
  | .oneOf => "oneOf"
  | .anyOf => "anyOf"

def Schema.branches (s : Schema) : BranchKey → List Schema
  | .allOf => s.allOf.getD []
  | .oneOf => s.oneOf.getD []
  | .anyOf => s.anyOf.getD []

/-- A step into a part of a schema object. -/
inductive Step
  | items
  | property (index : Nat)
  | branch (key : BranchKey) (index : Nat)

/-- The parts of a schema object behind the steps that lead to them. -/
def Visit.parts (v : Visit) : List (Step × Visit) :=
  (v.schema.items.toList.map fun s => (.items, ⟨v.location ++ ".items", s⟩)) ++
    ((v.schema.properties.getD []).zipIdx.map fun ((name, s), n) =>
      (.property n, ⟨v.location ++ ".properties." ++ name, s⟩)) ++
    [BranchKey.allOf, .oneOf, .anyOf].flatMap fun key =>
      (v.schema.branches key).zipIdx.map fun (s, n) =>
        (.branch key n, ⟨indexed v.location key.name n, s⟩)

theorem map_parts (v : Visit) : (v.parts.map fun p => p.2.schema) = v.schema.parts := by
  have hproperties := map_zipIdx (v.schema.properties.getD []) Prod.snd
  simp [Visit.parts, Schema.parts, Schema.propertySchemas, Schema.branches, Function.comp_def, hproperties]

theorem mem_parts_of_mem {v : Visit} {p : Step × Visit} (h : p ∈ v.parts) :
    p.2.schema ∈ v.schema.parts := by
  rw [← map_parts]
  exact List.mem_map_of_mem h

/-! ### Walks -/

/-- The walk of a schema object from its location. -/
def Visit.walk (v : Visit) : List Visit := v.schema.walk v.location

theorem walkNamed_eq (stem : String) (properties : List (String × Schema)) :
    walkNamed stem properties = properties.flatMap fun (name, s) => s.walk (stem ++ name) := by
  induction properties with
  | nil => rfl
  | cons p rest ih => rw [walkNamed, ih, List.flatMap_cons]

theorem walkIndexed_eq (location keyword : String) (index : Nat) (branches : List Schema) :
    walkIndexed location keyword index branches =
      (branches.zipIdx index).flatMap fun (s, n) => s.walk (indexed location keyword n) := by
  induction branches generalizing index with
  | nil => rfl
  | cons s rest ih => rw [walkIndexed, ih, List.zipIdx_cons, List.flatMap_cons]

theorem walkOptional_eq (location : String) (s : Option Schema) :
    walkOptional location s = s.toList.flatMap (Schema.walk location) := by
  cases s <;> simp [walkOptional]

theorem walkProperties_eq (location : String) (properties : Option (List (String × Schema))) :
    walkProperties location properties =
      (properties.getD []).flatMap fun (name, s) => s.walk (location ++ ".properties." ++ name) := by
  cases properties with
  | none => rfl
  | some properties => exact walkNamed_eq _ properties

theorem walkBranches_eq (location keyword : String) (branches : Option (List Schema)) :
    walkBranches location keyword branches =
      (branches.getD []).zipIdx.flatMap fun (s, n) => s.walk (indexed location keyword n) := by
  cases branches with
  | none => rfl
  | some branches => exact walkIndexed_eq location keyword 0 branches

/-- A walk visits a schema object, then what it visits from each part. -/
theorem walk_eq (v : Visit) : v.walk = v :: v.parts.flatMap fun p => p.2.walk := by
  obtain ⟨location, reference, type, literals, format, description, items, properties, required, allOf,
    oneOf, anyOf⟩ := v
  simp only [Visit.walk, Schema.walk, walkOptional_eq, walkProperties_eq, walkBranches_eq, Visit.parts,
    Schema.branches, BranchKey.name, List.flatMap_append, List.flatMap_map, List.flatMap_cons,
    List.flatMap_nil, List.append_nil, List.append_assoc]
  rw [flatMap_zipIdx (properties.getD []) fun p => p.2.walk (location ++ ".properties." ++ p.1)]

/-- The schema objects that a walk visits, in order. -/
def Schema.visited (s : Schema) : List Schema := (s.walk "").map Visit.schema

/-- Wherever a walk of the schema object starts, it visits the same. -/
def WalksAlike (s : Schema) : Prop := ∀ location, (s.walk location).map Visit.schema = s.visited

/-- One step of a walk. -/
theorem map_walk {s : Schema} (h : ∀ part ∈ s.parts, WalksAlike part) (location : String) :
    (s.walk location).map Visit.schema = s :: s.parts.flatMap Schema.visited := by
  have hparts : ∀ p ∈ Visit.parts ⟨location, s⟩, p.2.walk.map Visit.schema = p.2.schema.visited :=
    fun p hp => h _ (mem_parts_of_mem hp) p.2.location
  calc
    (s.walk location).map Visit.schema
      = s :: (Visit.parts ⟨location, s⟩).flatMap fun p => p.2.walk.map Visit.schema := by
        rw [← List.map_flatMap]
        exact congrArg (List.map Visit.schema) (walk_eq ⟨location, s⟩)
    _ = s :: (Visit.parts ⟨location, s⟩).flatMap fun p => p.2.schema.visited := by
        rw [List.flatMap_congr hparts]
    _ = s :: s.parts.flatMap Schema.visited := by
        rw [← map_parts ⟨location, s⟩, List.flatMap_map]

theorem walksAlike (s : Schema) : WalksAlike s := by
  induction s using Schema.byParts with
  | step s ih =>
    intro location
    rw [Schema.visited, map_walk ih, map_walk ih]

theorem visited_eq (s : Schema) : s.visited = s :: s.parts.flatMap Schema.visited :=
  map_walk (fun part _ => walksAlike part) ""

/-! ### Sites -/

/-- The inline schemas of parameters. -/
def parameterSchemas (parameters : List Parameter) : List Schema :=
  parameters.flatMap fun p => p.schema.toList

/-- The JSON schemas of an operation. -/
def Operation.sites (op : Operation) : List Schema :=
  parameterSchemas op.parameters ++ (op.requestBody.bind (jsonSchema ·.content)).toList ++
    op.responses.flatMap fun (_, response) => (jsonSchema response.content).toList

/-- The schema objects that a walk of a document starts from. -/
def sites (d : Document) : List Schema :=
  d.components.schemas.map Prod.snd ++ parameterSchemas (d.components.parameters.map Prod.snd) ++
    d.paths.flatMap fun (_, item) =>
      parameterSchemas item.parameters ++ item.operations.flatMap fun (_, op) => op.sites

/-- A site of an operation. -/
inductive OperationSite
  | parameter (index : Nat)
  | requestBody
  | response (index : Nat)

/-- A site of a path item. -/
inductive PathSite
  | parameter (index : Nat)
  | operation (index : Nat) (site : OperationSite)

/-- A site of a document. Schemas, parameters and paths are counted as they are listed. -/
inductive Site
  | schema (index : Nat)
  | parameter (index : Nat)
  | path (index : Nat) (site : PathSite)

/-- The schemas of listed parameters behind their positions. -/
def parameterVisits (location : String) (parameters : List Parameter) : List (Nat × Visit) :=
  parameters.zipIdx.flatMap fun (p, n) =>
    p.schema.toList.map fun s => (n, ⟨indexed location "parameters" n ++ ".schema", s⟩)

def Operation.visits (op : Operation) (location : String) : List (OperationSite × Visit) :=
  (parameterVisits location op.parameters).map (fun (n, v) => (.parameter n, v)) ++
    ((op.requestBody.bind (jsonSchema ·.content)).toList.map fun s =>
      (.requestBody, ⟨location ++ ".requestBody", s⟩)) ++
    op.responses.zipIdx.flatMap fun ((status, response), n) =>
      (jsonSchema response.content).toList.map fun s =>
        (.response n, ⟨location ++ ".responses." ++ status, s⟩)

def PathItem.visits (item : PathItem) (location : String) : List (PathSite × Visit) :=
  (parameterVisits location item.parameters).map (fun (n, v) => (.parameter n, v)) ++
    item.operations.zipIdx.flatMap fun ((method, op), n) =>
      (op.visits (location ++ "." ++ method.lower)).map fun (site, v) => (.operation n site, v)

/-- The schema objects that a walk of a document starts from, behind their sites. -/
def siteVisits (d : Document) : List (Site × Visit) :=
  (d.components.schemas.zipIdx.map fun ((name, s), n) =>
      (.schema n, ⟨"components.schemas." ++ name, s⟩)) ++
    (d.components.parameters.zipIdx.flatMap fun ((name, p), n) =>
      p.schema.toList.map fun s =>
        (.parameter n, ⟨"components.parameters." ++ name ++ ".schema", s⟩)) ++
    d.paths.zipIdx.flatMap fun ((path, item), n) =>
      (item.visits ("paths." ++ path)).map fun (site, v) => (.path n site, v)

theorem map_parameterVisits (location : String) (parameters : List Parameter) :
    ((parameterVisits location parameters).map fun p => p.2.schema) = parameterSchemas parameters := by
  rw [parameterSchemas, ← flatMap_zipIdx]
  simp [parameterVisits, List.map_flatMap, Function.comp_def]

theorem Operation.map_visits (op : Operation) (location : String) :
    ((op.visits location).map fun p => p.2.schema) = op.sites := by
  have hparameters := map_parameterVisits location op.parameters
  rw [sites, ← flatMap_zipIdx op.responses]
  simp [visits, List.map_flatMap, Function.comp_def, hparameters]

theorem PathItem.map_visits (item : PathItem) (location : String) :
    ((item.visits location).map fun p => p.2.schema) =
      parameterSchemas item.parameters ++ item.operations.flatMap fun (_, op) => op.sites := by
  have hparameters := map_parameterVisits location item.parameters
  rw [← flatMap_zipIdx item.operations]
  simp [visits, List.map_flatMap, Function.comp_def, hparameters, Operation.map_visits]

theorem map_siteVisits (d : Document) : (d.siteVisits.map fun p => p.2.schema) = d.sites := by
  have hschemas := map_zipIdx d.components.schemas Prod.snd
  have hparameters := flatMap_zipIdx d.components.parameters fun p => p.2.schema.toList
  rw [sites, parameterSchemas, List.flatMap_map, ← flatMap_zipIdx d.paths, ← hschemas, ← hparameters]
  simp [siteVisits, List.map_flatMap, Function.comp_def, PathItem.map_visits]

theorem walkParameters_eq (location : String) (parameters : List Parameter) :
    walkParameters location parameters =
      (parameterVisits location parameters).flatMap fun p => p.2.walk := by
  simp only [walkParameters, parameterVisits, walkOptional_eq, List.flatMap_assoc, List.flatMap_map]
  rfl

theorem walkOperation_eq (location : String) (op : Operation) :
    walkOperation location op = (op.visits location).flatMap fun p => p.2.walk := by
  have hresponses := flatMap_zipIdx op.responses fun p =>
    (jsonSchema p.2.content).toList.flatMap (Schema.walk (location ++ ".responses." ++ p.1))
  simp only [walkOperation, Operation.visits, walkParameters_eq, walkOptional_eq, List.flatMap_append,
    List.flatMap_assoc, List.flatMap_map]
  rw [← hresponses]
  rfl

theorem walkPathItem_eq (location : String) (item : PathItem) :
    (walkParameters location item.parameters ++ item.operations.flatMap fun (method, op) =>
        walkOperation (location ++ "." ++ method.lower) op) =
      (item.visits location).flatMap fun p => p.2.walk := by
  have hoperations := flatMap_zipIdx item.operations fun p =>
    (p.2.visits (location ++ "." ++ p.1.lower)).flatMap fun q => q.2.walk
  simp only [PathItem.visits, walkParameters_eq, walkOperation_eq, List.flatMap_append,
    List.flatMap_assoc, List.flatMap_map]
  rw [← hoperations]

/-- A walk of a document visits what it visits from each site. -/
theorem walk_eq_siteVisits (d : Document) : d.walk = d.siteVisits.flatMap fun p => p.2.walk := by
  have hschemas := flatMap_zipIdx d.components.schemas fun p =>
    p.2.walk ("components.schemas." ++ p.1)
  have hparameters := flatMap_zipIdx d.components.parameters fun p =>
    p.2.schema.toList.flatMap (Schema.walk ("components.parameters." ++ p.1 ++ ".schema"))
  have hpaths := flatMap_zipIdx d.paths fun p =>
    (p.2.visits ("paths." ++ p.1)).flatMap fun q => q.2.walk
  simp only [walk, siteVisits, walkNamed_eq, walkOptional_eq, walkPathItem_eq, List.flatMap_append,
    List.flatMap_assoc, List.flatMap_map]
  rw [← hschemas, ← hparameters, ← hpaths]
  rfl

/-- What a walk of a document visits. -/
theorem map_walk_document (d : Document) :
    d.walk.map Visit.schema = d.sites.flatMap Schema.visited := by
  rw [walk_eq_siteVisits, List.map_flatMap, ← map_siteVisits, List.flatMap_map]
  exact List.flatMap_congr fun p _ => walksAlike p.2.schema p.2.location

end TypedClient.Document
