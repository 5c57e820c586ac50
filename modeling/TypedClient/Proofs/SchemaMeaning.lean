import TypedClient.Proofs.Schemas
import TypedClient.Proofs.TypeReader

/-! What the type expression of a schema is meant to say, and the condition under which
it does. An array puts a union into parentheses and an intersection does not, so a
union among the parts of an intersection loses them for its outer members. -/

namespace TypedClient.TypeScript

open Model Config

namespace TypeShape

/-- The parts that a type has as a part of an intersection. -/
def parts : TypeShape → List TypeShape
  | .intersection parts => parts
  | type => [type]

def isUnion : TypeShape → Bool
  | .union _ => true
  | _ => false

end TypeShape

/-- What a scalar is called. -/
def scalarMeaning : Scalar → TypeShape
  | .string => .name "string"
  | .number | .integer => .name "number"
  | .boolean => .name "boolean"

/-- What a composition of the given types says: the first of them, or all of them at once with
nested intersections flattened. -/
def composedMeaning : Compose → List TypeShape → TypeShape
  | _, [] => .name "any"
  | .first, type :: _ => type
  | .intersection, [type] => type
  | .intersection, types => .intersection (types.flatMap TypeShape.parts)

mutual

/-- The shape that the type expression of a schema is meant to say. -/
def schemaMeaning (compose : Compose) : Schema → TypeShape
  | .mk shape _ => shapeMeaning compose shape

def shapeMeaning (compose : Compose) : Shape → TypeShape
  | .reference name => .name name
  | .scalar kind => scalarMeaning kind
  | .literals [] => .name "never"
  | .literals values => .any (values.map .literal)
  | .array item => .array (schemaMeaning compose item)
  | .object [] _ => .apply "Record" [.name "string", .name "any"]
  | .object properties required => .object (fieldMeanings compose required properties)
  | .composed branches => composedMeaning compose (branchMeanings compose branches)
  | .unknown => .name "any"

def branchMeanings (compose : Compose) : List Schema → List TypeShape
  | [] => []
  | branch :: rest => schemaMeaning compose branch :: branchMeanings compose rest

def fieldMeanings (compose : Compose) (required : List String) :
    List (String × Schema) → List (String × Bool × TypeShape)
  | [] => []
  | (name, schema) :: rest =>
    (name, !required.contains name, schemaMeaning compose schema) :: fieldMeanings compose required rest

end

/-- Whether a composition of the given types is an intersection with a union among its parts. -/
def mixesUnion : Compose → List TypeShape → Bool
  | .intersection, first :: second :: rest => (first :: second :: rest).any TypeShape.isUnion
  | _, _ => false

mutual

/-- Whether no intersection in the type expression of a schema has a union among its parts. Of a
composition that is cut to its first branch, the others do not matter. -/
def schemaGrouped (compose : Compose) : Schema → Bool
  | .mk shape _ => shapeGrouped compose shape

def shapeGrouped (compose : Compose) : Shape → Bool
  | .array item => schemaGrouped compose item
  | .object properties _ => propertiesGrouped compose properties
  | .composed branches =>
    branchesGrouped compose branches && !mixesUnion compose (branchMeanings compose branches)
  | _ => true

def propertiesGrouped (compose : Compose) : List (String × Schema) → Bool
  | [] => true
  | (_, schema) :: rest => schemaGrouped compose schema && propertiesGrouped compose rest

def branchesGrouped (compose : Compose) : List Schema → Bool
  | [] => true
  | branch :: rest => schemaGrouped compose branch && (compose = .first || branchesGrouped compose rest)

end

variable {compose : Compose}

theorem branchTypes_eq (branches : List Schema) :
    branchTypes compose branches = branches.map (schemaType compose) := by
  induction branches with
  | nil => rfl
  | cons branch rest ih => simp [branchTypes, ih]

theorem branchMeanings_eq (branches : List Schema) :
    branchMeanings compose branches = branches.map (schemaMeaning compose) := by
  induction branches with
  | nil => rfl
  | cons branch rest ih => simp [branchMeanings, ih]

theorem fieldTypes_eq (required : List String) (properties : List (String × Schema)) :
    fieldTypes compose required properties = properties.map fun (name, schema) =>
      ⟨name, !required.contains name, schemaType compose schema⟩ := by
  induction properties with
  | nil => rfl
  | cons p rest ih => simp [fieldTypes, ih]

theorem fieldMeanings_eq (required : List String) (properties : List (String × Schema)) :
    fieldMeanings compose required properties = properties.map fun (name, schema) =>
      (name, !required.contains name, schemaMeaning compose schema) := by
  induction properties with
  | nil => rfl
  | cons p rest ih => simp [fieldMeanings, ih]

theorem propertiesGrouped_iff (properties : List (String × Schema)) :
    propertiesGrouped compose properties = true ↔ ∀ p ∈ properties, schemaGrouped compose p.2 = true := by
  induction properties with
  | nil => simp [propertiesGrouped]
  | cons p rest ih => simp [propertiesGrouped, ih]

theorem branchesGrouped_intersection (branches : List Schema) :
    branchesGrouped .intersection branches = branches.all (schemaGrouped .intersection) := by
  induction branches with
  | nil => rfl
  | cons branch rest ih => simp [branchesGrouped, ih]

end TypedClient.TypeScript
