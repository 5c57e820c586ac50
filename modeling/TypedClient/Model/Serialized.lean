import TypedClient.Json.Value
import TypedClient.Model.Api

/-! The JSON form of an API and of its schemas. -/

namespace TypedClient

open Json

/-- A text, or `null` when there is none. -/
def Json.Value.ofOption (s : Option String) : Value := (s.map Value.string).getD .null

namespace Model

mutual

/-- A schema: its shape under `kind`, then its description when it has one. -/
def Schema.toJson : Schema → Value
  | .mk shape none => .object [("kind", shape.toJson)]
  | .mk shape (some text) => .object [("kind", shape.toJson), ("description", .string text)]

/-- A shape: its `type`, then what it consists of. -/
def Shape.toJson : Shape → Value
  | .reference name => .object [("type", .string "reference"), ("name", .string name)]
  | .scalar kind => .object [("type", .string "primitive"), ("primitive", .string kind.name)]
  | .literals values =>
    .object [("type", .string "enum_string"), ("values", .array (values.map .string))]
  | .array item => .object [("type", .string "array_of"), ("item", item.toJson)]
  | .object properties required =>
    .object [("type", .string "object"), ("properties", .object (propertiesJson properties)),
      ("required", .array (required.map .string))]
  | .composed branches =>
    .object [("type", .string "composed"), ("branches", .array (branchesJson branches))]
  | .unknown => .object [("type", .string "unknown")]

def branchesJson : List Schema → List Value
  | [] => []
  | branch :: rest => branch.toJson :: branchesJson rest

def propertiesJson : List (String × Schema) → List (String × Value)
  | [] => []
  | (name, schema) :: rest => (name, schema.toJson) :: propertiesJson rest

end

/-- A schema, or `null` when there is none. -/
def optionalJson (s : Option Schema) : Value := (s.map Schema.toJson).getD .null

def Parameter.toJson (p : Parameter) : Value :=
  .object [("name", .string p.name), ("location", .string p.place.name),
    ("required", .bool p.required), ("schema", optionalJson p.schema),
    ("description", .ofOption p.description)]

def RequestBody.toJson (b : RequestBody) : Value :=
  .object [("schema", optionalJson b.schema), ("required", .bool b.required),
    ("description", .ofOption b.description)]

def Operation.toJson (op : Operation) : Value :=
  .object [("method", .string op.method.lower), ("path", .string op.path),
    ("operation_id", .ofOption op.declaredId), ("summary", .ofOption op.summary),
    ("description", .ofOption op.description),
    ("parameters", .array (op.parameters.map Parameter.toJson)),
    ("request_body", (op.requestBody.map RequestBody.toJson).getD .null),
    ("response", optionalJson op.response)]

def Meta.toJson (m : Meta) : Value :=
  .object [("title", .string m.title), ("version", .string m.version),
    ("description", .ofOption m.description)]

end Model

/-- An API: what it is called, its schemas under their names, its operations. -/
def Api.toJson (api : Api) : Value :=
  .object [("meta", api.info.toJson),
    ("catalog", .object (api.catalog.schemas.map fun (name, s) => (name, s.toJson))),
    ("operations", .array (api.operations.map Model.Operation.toJson))]

end TypedClient
