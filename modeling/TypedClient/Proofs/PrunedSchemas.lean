import TypedClient.Lint.Schemas
import TypedClient.Proofs.Lowering
import TypedClient.Proofs.SchemaMeaning
import TypedClient.Proofs.ShownTypes

/-! Schema objects without what is ignored in them. A schema object is pruned by taking away, at any
depth, all alternatives, the enumerations that a note calls ignored, and the branches of compositions
that are cut. Its type stays the same, and so does what a declaration shows of it. -/

namespace TypedClient

open Config Lint

namespace Document

/-- The branches of a composition that have a part in its type. -/
def usedBranches (compose : Compose) (branches : List Schema) : List Schema :=
  match compose with
  | .first => branches.take 1
  | .intersection => branches

/-- The enumeration of a schema object, unless a note calls it ignored. -/
def Schema.usedLiterals (s : Schema) : Option (List Json.Value) :=
  if (ignoredEnum s).isEmpty then s.literals else none

mutual

/-- The schema object without what is ignored, at any depth. -/
def Schema.pruned (compose : Compose) : Schema → Schema
  | ⟨reference, type, literals, format, description, items, properties, required, allOf, oneOf,
      anyOf⟩ =>
    { reference := reference
      type := type
      literals := Schema.usedLiterals ⟨reference, type, literals, format, description, items,
        properties, required, allOf, oneOf, anyOf⟩
      format := format
      description := description
      items := prunedOptional compose items
      properties := prunedProperties compose properties
      required := required
      allOf := prunedBranches compose allOf
      oneOf := none
      anyOf := none }

def prunedOptional (compose : Compose) : Option Schema → Option Schema
  | none => none
  | some s => some (s.pruned compose)

def prunedProperties (compose : Compose) :
    Option (List (String × Schema)) → Option (List (String × Schema))
  | none => none
  | some properties => some (prunedNamed compose properties)

def prunedNamed (compose : Compose) : List (String × Schema) → List (String × Schema)
  | [] => []
  | (name, s) :: rest => (name, s.pruned compose) :: prunedNamed compose rest

def prunedBranches (compose : Compose) : Option (List Schema) → Option (List Schema)
  | none => none
  | some branches => some (usedBranches compose (prunedSchemas compose branches))

def prunedSchemas (compose : Compose) : List Schema → List Schema
  | [] => []
  | s :: rest => s.pruned compose :: prunedSchemas compose rest

end

variable (compose : Compose)

theorem prunedNamed_eq (properties : List (String × Schema)) :
    prunedNamed compose properties = properties.map fun (name, s) => (name, s.pruned compose) := by
  induction properties with
  | nil => rfl
  | cons p rest ih => rw [prunedNamed, ih, List.map_cons]

theorem prunedSchemas_eq (branches : List Schema) :
    prunedSchemas compose branches = branches.map (·.pruned compose) := by
  induction branches with
  | nil => rfl
  | cons s rest ih => rw [prunedSchemas, ih, List.map_cons]

theorem map_usedBranches (f : Schema → Schema) (branches : List Schema) :
    usedBranches compose (branches.map f) = (usedBranches compose branches).map f := by
  cases compose with
  | first => exact List.map_take.symm
  | intersection => rfl

theorem usedBranches_subset (branches : List Schema) : usedBranches compose branches ⊆ branches := by
  cases compose with
  | first => exact List.take_subset 1 branches
  | intersection => exact List.Subset.refl branches

/-- A pruned schema object by the keys of the whole one. -/
theorem pruned_eq (s : Schema) : s.pruned compose =
    { s with
      literals := s.usedLiterals
      items := s.items.map (·.pruned compose)
      properties := s.properties.map (·.map fun (name, part) => (name, part.pruned compose))
      allOf := s.allOf.map fun branches => (usedBranches compose branches).map (·.pruned compose)
      oneOf := none
      anyOf := none } := by
  obtain ⟨reference, type, literals, format, description, items, properties, required, allOf, oneOf,
    anyOf⟩ := s
  have hitems : prunedOptional compose items = items.map (·.pruned compose) := by
    cases items <;> rfl
  have hproperties : prunedProperties compose properties =
      properties.map (·.map fun (name, part) => (name, part.pruned compose)) := by
    cases properties with
    | none => rfl
    | some properties => exact congrArg some (prunedNamed_eq compose properties)
  have hallOf : prunedBranches compose allOf =
      allOf.map fun branches => (usedBranches compose branches).map (·.pruned compose) := by
    cases allOf with
    | none => rfl
    | some branches =>
      rw [prunedBranches, prunedSchemas_eq, map_usedBranches]
      rfl
  rw [Schema.pruned, hitems, hproperties, hallOf]

namespace Schema

@[simp] theorem reference_pruned (s : Schema) : (s.pruned compose).reference = s.reference := by
  rw [pruned_eq]

@[simp] theorem typeName_pruned (s : Schema) : (s.pruned compose).typeName = s.typeName := by
  rw [pruned_eq]
  rfl

@[simp] theorem literals_pruned (s : Schema) : (s.pruned compose).literals = s.usedLiterals := by
  rw [pruned_eq]

@[simp] theorem description_pruned (s : Schema) :
    (s.pruned compose).description = s.description := by
  rw [pruned_eq]

@[simp] theorem items_pruned (s : Schema) :
    (s.pruned compose).items = s.items.map (·.pruned compose) := by
  rw [pruned_eq]

@[simp] theorem properties_pruned (s : Schema) : (s.pruned compose).properties =
    s.properties.map (·.map fun (name, part) => (name, part.pruned compose)) := by
  rw [pruned_eq]

@[simp] theorem required_pruned (s : Schema) : (s.pruned compose).required = s.required := by
  rw [pruned_eq]

@[simp] theorem allOf_pruned (s : Schema) : (s.pruned compose).allOf =
    s.allOf.map fun branches => (usedBranches compose branches).map (·.pruned compose) := by
  rw [pruned_eq]

@[simp] theorem oneOf_pruned (s : Schema) : (s.pruned compose).oneOf = none := by
  rw [pruned_eq]

@[simp] theorem anyOf_pruned (s : Schema) : (s.pruned compose).anyOf = none := by
  rw [pruned_eq]

theorem getD_properties_pruned (s : Schema) : (s.pruned compose).properties.getD [] =
    (s.properties.getD []).map fun (name, part) => (name, part.pruned compose) := by
  rw [properties_pruned]
  cases s.properties <;> rfl

theorem getD_allOf_pruned (s : Schema) : (s.pruned compose).allOf.getD [] =
    (usedBranches compose (s.allOf.getD [])).map (·.pruned compose) := by
  rw [allOf_pruned]
  cases s.allOf with
  | none => cases compose <;> rfl
  | some branches => rfl

/-- Whether there is a composition does not depend on how it is cut. -/
theorem isEmpty_allOf_pruned (s : Schema) :
    ((s.pruned compose).allOf.getD []).isEmpty = (s.allOf.getD []).isEmpty := by
  rw [getD_allOf_pruned, List.isEmpty_map]
  cases compose <;> cases s.allOf.getD [] <;> rfl

end Schema

theorem Schema.usedLiterals_of_string (s : Schema) (h : s.typeName = some "string") :
    s.usedLiterals = s.literals := by
  simp [usedLiterals, ignoredEnum, h]

end Document

namespace Model

variable (compose : Compose)

theorem Schema.description_ofDocument (s : Document.Schema) :
    (Schema.ofDocument s).description = s.description := by
  rw [ofDocument_eq]
  rfl

theorem Schema.description_pruned (s : Document.Schema) :
    (Schema.ofDocument (s.pruned compose)).description = (Schema.ofDocument s).description := by
  rw [description_ofDocument, description_ofDocument, Document.Schema.description_pruned]

theorem isLiterals_ofType_congr {type : Option String} {literals literals' : Option (List Json.Value)}
    {item item' : Schema} {declared declared' : Bool} {fields fields' : Fields}
    {description description' : Option String}
    (hliterals : type = some "string" → literals = literals') :
    (Schema.mk (.ofType type literals item declared fields) description).isLiterals =
      (Schema.mk (.ofType type literals' item' declared' fields') description').isLiterals := by
  unfold Shape.ofType
  split
  · rw [hliterals rfl]
    rfl
  · rfl
  · rfl
  · rfl
  · rfl
  · rfl
  · rfl
  · cases declared <;> cases declared' <;> rfl

theorem Schema.isLiterals_pruned (s : Document.Schema) :
    (Schema.ofDocument (s.pruned compose)).isLiterals = (Schema.ofDocument s).isLiterals := by
  rw [ofDocument_eq, ofDocument_eq s, Document.Schema.isEmpty_allOf_pruned,
    Document.Schema.reference_pruned, Document.Schema.typeName_pruned,
    Document.Schema.literals_pruned]
  cases s.reference with
  | some pointer => rfl
  | none =>
    cases h : (s.allOf.getD []).isEmpty with
    | true => exact isLiterals_ofType_congr s.usedLiterals_of_string
    | false => rfl

end Model

/-! ### Types -/

namespace TypeScript

open Model

variable {compose : Compose}

/-- Of a shape that a type name asks for the literals matter in a string, the item in an array, and
the properties as an object. -/
theorem shapeType_ofType_congr {type : Option String} {literals literals' : Option (List Json.Value)}
    {item item' : Model.Schema} {declared : Bool} {fields fields' : Fields}
    (hliterals : type = some "string" → literals = literals')
    (hitem : schemaType compose item = schemaType compose item')
    (hfields : shapeType compose (.object fields.properties fields.required) =
      shapeType compose (.object fields'.properties fields'.required)) :
    shapeType compose (.ofType type literals item declared fields) =
      shapeType compose (.ofType type literals' item' declared fields') := by
  unfold Shape.ofType
  split
  · rw [hliterals rfl]
  · rfl
  · rfl
  · rfl
  · rw [shapeType, shapeType, hitem]
  · exact hfields
  · rfl
  · cases declared with
    | true => exact hfields
    | false => rfl

/-- A composition is joined from the branches that are used, and from what follows all of them. -/
theorem composeTypes_usedBranches (f : Document.Schema → String) (branches : List Document.Schema)
    (added : List String) :
    composeTypes compose ((Document.usedBranches compose branches).map f ++ added) =
      composeTypes compose (branches.map f ++ added) := by
  cases compose with
  | first => cases branches <;> rfl
  | intersection => rfl

theorem map_composedBranches (branches : List Model.Schema) (fields : Fields) :
    (composedBranches branches fields).map (schemaType compose) =
      branches.map (schemaType compose) ++ if fields.properties.isEmpty then [] else
        [shapeType compose (.object fields.properties fields.required)] := by
  rw [composedBranches, List.map_append]
  split <;> rfl

theorem shapeType_composed (branches : List Model.Schema) :
    shapeType compose (.composed branches) =
      composeTypes compose (branches.map (schemaType compose)) := by
  rw [shapeType, branchTypes_eq]

/-- What is shown of properties does not depend on what is ignored in them, if their types do not. -/
theorem shownProperties_pruned {s : Document.Schema} (h : ∀ part ∈ s.propertySchemas,
    schemaType compose (.ofDocument (part.pruned compose)) = schemaType compose (.ofDocument part)) :
    shownProperties compose (Fields.ofDocument (s.pruned compose)).properties =
      shownProperties compose (Fields.ofDocument s).properties := by
  simp only [Fields.ofDocument, optionalProperties_eq, Document.Schema.getD_properties_pruned,
    shownProperties, List.map_map]
  apply List.map_congr_left
  rintro ⟨name, part⟩ hpart
  have htype := h part (List.mem_map_of_mem (f := Prod.snd) hpart)
  have hdescription := Schema.description_pruned compose part
  simp [htype, hdescription]

/-- The types of the branches of a composition, with the properties beside them as one more. -/
theorem composeTypes_pruned {s : Document.Schema} (hbranches : ∀ part ∈ s.allOf.getD [],
    schemaType compose (.ofDocument (part.pruned compose)) = schemaType compose (.ofDocument part))
    {fields fields' : Fields} (hempty : fields.properties.isEmpty = fields'.properties.isEmpty)
    (hfields : shapeType compose (.object fields.properties fields.required) =
      shapeType compose (.object fields'.properties fields'.required)) :
    shapeType compose (.composed (composedBranches
      (((s.pruned compose).allOf.getD []).map Schema.ofDocument) fields)) =
    shapeType compose (.composed (composedBranches
      ((s.allOf.getD []).map Schema.ofDocument) fields')) := by
  have htypes : (Document.usedBranches compose (s.allOf.getD [])).map
        (fun part => schemaType compose (.ofDocument (part.pruned compose))) =
      (Document.usedBranches compose (s.allOf.getD [])).map
        (fun part => schemaType compose (.ofDocument part)) :=
    List.map_congr_left fun part hpart =>
      hbranches part (Document.usedBranches_subset compose _ hpart)
  rw [shapeType_composed, shapeType_composed, map_composedBranches, map_composedBranches,
    Document.Schema.getD_allOf_pruned, hempty, hfields, List.map_map, List.map_map, List.map_map]
  calc
    _ = composeTypes compose ((Document.usedBranches compose (s.allOf.getD [])).map
          (fun part => schemaType compose (.ofDocument part)) ++ _) := by rw [← htypes]; rfl
    _ = _ := composeTypes_usedBranches _ _ _

/-- The type of a schema object does not depend on what is ignored in it. -/
theorem schemaType_pruned (s : Document.Schema) :
    schemaType compose (.ofDocument (s.pruned compose)) = schemaType compose (.ofDocument s) := by
  induction s using Document.Schema.byParts with
  | step s ih =>
    have hshown := shownProperties_pruned (s := s) fun part hpart => ih part (by
      simp [Document.Schema.parts, hpart])
    have hfields : shapeType compose (.object (Fields.ofDocument (s.pruned compose)).properties
          (Fields.ofDocument (s.pruned compose)).required) =
        shapeType compose (.object (Fields.ofDocument s).properties (Fields.ofDocument s).required) := by
      have hrequired : (Fields.ofDocument (s.pruned compose)).required =
          (Fields.ofDocument s).required := s.required_pruned compose
      have htypes := congrArg (List.map fun p => (p.1, p.2.2)) hshown
      rw [shownProperties, shownProperties, List.map_map, List.map_map] at htypes
      rw [hrequired]
      exact shapeType_object_congr htypes
    have hempty := congrArg List.isEmpty hshown
    rw [shownProperties, shownProperties, List.isEmpty_map, List.isEmpty_map] at hempty
    rw [ofDocument_eq, ofDocument_eq s, schemaType, schemaType, s.isEmpty_allOf_pruned,
      s.reference_pruned]
    cases s.reference with
    | some pointer => rfl
    | none =>
      cases hallOf : (s.allOf.getD []).isEmpty with
      | true =>
        have hitem : schemaType compose (optionalItem (s.pruned compose).items) =
            schemaType compose (optionalItem s.items) := by
          rw [s.items_pruned]
          cases h : s.items with
          | none => rfl
          | some item => exact ih item (by simp [Document.Schema.parts, h])
        rw [s.typeName_pruned, s.literals_pruned, s.properties_pruned, Option.isSome_map]
        exact shapeType_ofType_congr s.usedLiterals_of_string hitem hfields
      | false =>
        -- Of the branches that are left each is pruned by itself; those that are cut had no part.
        refine composeTypes_pruned (fun part hpart => ih part ?_) hempty hfields
        simp [Document.Schema.parts, hpart]

end TypeScript

end TypedClient
