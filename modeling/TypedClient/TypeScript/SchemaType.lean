import TypedClient.Config.Basic
import TypedClient.Model.Schema
import TypedClient.TypeScript.TypeExpr

/-! The type expression of a schema. References are spelled by name and not
followed, so every schema has one. -/

namespace TypedClient.TypeScript

open Model Config

/-- The type of a scalar. -/
def scalarType : Scalar → String
  | .string => "string"
  | .number => "number"
  | .integer => "number"
  | .boolean => "boolean"

/-- How the types of the branches of a composition are joined. -/
def composeTypes : Compose → List String → String
  | _, [] => TypeExpr.unknown
  | .first, type :: _ => type
  | .intersection, types => TypeExpr.intersection types

mutual

def schemaType (compose : Compose) : Schema → String
  | .mk shape _ => shapeType compose shape

def shapeType (compose : Compose) : Shape → String
  | .reference name => name
  | .scalar kind => scalarType kind
  | .literals values => TypeExpr.union values
  | .array item => TypeExpr.array (schemaType compose item)
  | .object [] _ => TypeExpr.openMap
  | .object (property :: properties) required =>
    TypeExpr.object (fieldTypes compose required (property :: properties))
  | .composed branches => composeTypes compose (branchTypes compose branches)
  | .unknown => TypeExpr.unknown

def branchTypes (compose : Compose) : List Schema → List String
  | [] => []
  | branch :: rest => schemaType compose branch :: branchTypes compose rest

/-- A property is optional unless it is listed as required. -/
def fieldTypes (compose : Compose) (required : List String) :
    List (String × Schema) → List TypeExpr.Field
  | [] => []
  | (name, schema) :: rest =>
    ⟨name, !required.contains name, schemaType compose schema⟩ ::
      fieldTypes compose required rest

end

/-- The type of a schema that may be absent. -/
def optionalType (compose : Compose) : Option Schema → String
  | none => TypeExpr.unknown
  | some schema => schemaType compose schema

end TypedClient.TypeScript
