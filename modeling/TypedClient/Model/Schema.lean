/-! Schemas of an API as code generation sees them. -/

namespace TypedClient.Model

inductive Scalar
  | string | number | integer | boolean
  deriving DecidableEq, Repr

def Scalar.name : Scalar → String
  | .string => "string"
  | .number => "number"
  | .integer => "integer"
  | .boolean => "boolean"

mutual

/-- A schema: its shape, and its description when it has one. -/
inductive Schema
  | mk (shape : Shape) (description : Option String)

inductive Shape
  /-- A schema of the catalog, by name. -/
  | reference (name : String)
  | scalar (kind : Scalar)
  /-- A string out of a list of literals. -/
  | literals (values : List String)
  | array (item : Schema)
  /-- Properties in order, and the names of the required ones. -/
  | object (properties : List (String × Schema)) (required : List String)
  /-- All branches at once. -/
  | composed (branches : List Schema)
  /-- Absent or not supported. -/
  | unknown

end

instance : Inhabited Schema := ⟨.mk .unknown none⟩

namespace Schema

def shape : Schema → Shape
  | mk shape _ => shape

def description : Schema → Option String
  | mk _ description => description

/-- Whether the schema lists string literals. -/
def isLiterals (s : Schema) : Bool :=
  match s.shape with
  | .literals _ => true
  | _ => false

end Schema

/-- The properties that a schema itself declares. -/
structure Fields where
  properties : List (String × Schema)
  required : List String

/-- No properties at all. -/
def Fields.none : Fields := ⟨[], []⟩

/-- The properties of an object; no other schema has any. -/
def Schema.fields (s : Schema) : Fields :=
  match s.shape with
  | .object properties required => ⟨properties, required⟩
  | _ => .none

end TypedClient.Model
