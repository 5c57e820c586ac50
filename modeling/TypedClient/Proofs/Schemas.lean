import TypedClient.TypeScript.SchemaType

/-! Schemas by their parts: the schemas directly inside a schema, induction over
them, and the references at any depth. -/

namespace TypedClient.Model

/-- The schemas directly inside a shape. -/
def Shape.children : Shape → List Schema
  | .array item => [item]
  | .object properties _ => properties.map Prod.snd
  | .composed branches => branches
  | _ => []

theorem Shape.sizeOf_child {shape : Shape} {child : Schema} (h : child ∈ shape.children) :
    sizeOf child < sizeOf shape := by
  cases shape with
  | array item =>
    rw [List.mem_singleton.mp h, Shape.array.sizeOf_spec]
    omega
  | object properties required =>
    obtain ⟨⟨name, schema⟩, hp, rfl⟩ := List.mem_map.mp h
    have := List.sizeOf_lt_of_mem hp
    simp only [Prod.mk.sizeOf_spec, Shape.object.sizeOf_spec] at this ⊢
    omega
  | composed branches =>
    have := List.sizeOf_lt_of_mem (show child ∈ branches from h)
    rw [Shape.composed.sizeOf_spec]
    omega
  | reference _ => nomatch h
  | scalar _ => nomatch h
  | literals _ => nomatch h
  | unknown => nomatch h

/-- A property of schemas holds of all when it holds of each whose children have it. -/
@[elab_as_elim]
theorem Schema.byChildren {P : Schema → Prop}
    (step : ∀ shape description, (∀ child ∈ shape.children, P child) → P (.mk shape description))
    (s : Schema) : P s :=
  match s with
  | .mk shape description => step shape description fun child _ => Schema.byChildren step child
termination_by sizeOf s
decreasing_by
  have := Shape.sizeOf_child ‹child ∈ shape.children›
  rw [Schema.mk.sizeOf_spec]
  omega

/-! ### References -/

mutual

/-- The names of the references in a schema, at any depth. -/
def Schema.references : Schema → List String
  | .mk shape _ => shape.references

def Shape.references : Shape → List String
  | .reference name => [name]
  | .array item => item.references
  | .object properties _ => propertyReferences properties
  | .composed branches => branchReferences branches
  | .scalar _ | .literals _ | .unknown => []

def propertyReferences : List (String × Schema) → List String
  | [] => []
  | (_, schema) :: rest => schema.references ++ propertyReferences rest

def branchReferences : List Schema → List String
  | [] => []
  | branch :: rest => branch.references ++ branchReferences rest

end

theorem propertyReferences_eq (properties : List (String × Schema)) :
    propertyReferences properties = properties.flatMap fun p => p.2.references := by
  induction properties with
  | nil => rfl
  | cons p rest ih => simp [propertyReferences, ih]

theorem branchReferences_eq (branches : List Schema) :
    branchReferences branches = branches.flatMap Schema.references := by
  induction branches with
  | nil => rfl
  | cons branch rest ih => simp [branchReferences, ih]

/-- Apart from a reference itself, the references of a shape are those of its children. -/
theorem Shape.references_eq {shape : Shape} (h : ∀ name, shape ≠ .reference name) :
    shape.references = shape.children.flatMap Schema.references := by
  cases shape with
  | reference name => exact absurd rfl (h name)
  | array item => simp [Shape.references, Shape.children]
  | object properties required =>
    rw [Shape.references, Shape.children, propertyReferences_eq, List.flatMap_map]
  | composed branches => exact branchReferences_eq branches
  | scalar _ => rfl
  | literals _ => rfl
  | unknown => rfl

theorem Shape.references_of_child {shape : Shape} {child : Schema} (h : child ∈ shape.children)
    {name : String} (hn : name ∈ child.references) : name ∈ shape.references := by
  have hshape : ∀ name, shape ≠ .reference name := by
    rintro name rfl
    nomatch h
  rw [references_eq hshape]
  exact List.mem_flatMap.mpr ⟨child, h, hn⟩

end TypedClient.Model
