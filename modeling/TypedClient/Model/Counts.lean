import TypedClient.Model.Serialized

/-! The numbers that reports tell about an API. -/

namespace TypedClient.Model

structure Counts where
  schemas : Nat
  /-- The schemas that list string literals. -/
  enums : Nat
  operations : Nat
  /-- The operations that take input. -/
  requestTypes : Nat
  /-- The identifiers of the operations, in order. -/
  operationIds : List String
  deriving DecidableEq

def Counts.ofApi (api : Api) : Counts :=
  { schemas := api.catalog.schemas.length
    enums := (api.catalog.schemas.filter fun (_, s) => s.isLiterals).length
    operations := api.operations.length
    requestTypes := (api.operations.filter (·.takesInput)).length
    operationIds := api.operations.map Operation.id }

def Counts.toJson (c : Counts) : Json.Value :=
  .object [("schema_count", .number (.integer c.schemas)), ("enum_count", .number (.integer c.enums)),
    ("operation_count", .number (.integer c.operations)),
    ("request_type_count", .number (.integer c.requestTypes)),
    ("operation_ids", .array (c.operationIds.map .string))]

end TypedClient.Model
