import TypedClient.Json.Value
import TypedClient.Route.Method

/-! API documents as far as they are read. Every key is optional; maps keep the order
in which the document declares their entries. -/

namespace TypedClient

open Route

namespace Document

/-- The `type` of a schema: one name, or a list of alternatives. -/
inductive TypeName
  | single (name : String)
  | several (names : List String)
  deriving DecidableEq

/-- The first type name other than `null`. -/
def TypeName.primary : TypeName → Option String
  | .single name => some name
  | .several names => names.find? (· != "null")

/-- A schema object, restricted to the keys that matter. -/
structure Schema where
  reference : Option String
  type : Option TypeName
  literals : Option (List Json.Value)
  format : Option String
  description : Option String
  items : Option Schema
  properties : Option (List (String × Schema))
  required : List String
  allOf : Option (List Schema)
  oneOf : Option (List Schema)
  anyOf : Option (List Schema)

/-- A schema object without any key. -/
def Schema.empty : Schema := ⟨none, none, none, none, none, none, none, [], none, none, none⟩

instance : Inhabited Schema := ⟨.empty⟩

/-- The primary type name, if one is declared. -/
def Schema.typeName (s : Schema) : Option String := s.type.bind TypeName.primary

/-- Where a parameter is carried. -/
inductive Place
  | path | query | header | cookie | other
  deriving DecidableEq, Repr

def Place.name : Place → String
  | .path => "path"
  | .query => "query"
  | .header => "header"
  | .cookie => "cookie"
  | .other => "other"

/-- A parameter, or a reference to a shared one. -/
structure Parameter where
  reference : Option String
  name : Option String
  place : Option Place
  required : Bool
  description : Option String
  schema : Option Schema

structure MediaType where
  schema : Option Schema

/-- The schema of the `application/json` entry, if there is one. -/
def jsonSchema (content : List (String × MediaType)) : Option Schema :=
  (content.lookup "application/json").bind MediaType.schema

structure RequestBody where
  description : Option String
  required : Bool
  content : List (String × MediaType)

structure Response where
  description : Option String
  content : List (String × MediaType)

structure Operation where
  operationId : Option String
  summary : Option String
  description : Option String
  parameters : List Parameter
  requestBody : Option RequestBody
  responses : List (String × Response)

/-- The schema of the `200` response in JSON. -/
def Operation.successSchema (op : Operation) : Option Schema :=
  (op.responses.lookup "200").bind fun response => jsonSchema response.content

/-- A path item: shared parameters, operations in the order of their keys, and the keys that name
neither. -/
structure PathItem where
  parameters : List Parameter
  operations : List (Method × Operation)
  ignoredKeys : List String

structure Info where
  title : Option String
  version : Option String
  description : Option String

/-- What a document shares, by name; no two schemas have the same name. -/
structure Components where
  schemas : List (String × Schema)
  parameters : List (String × Parameter)
  distinct : (schemas.map Prod.fst).Nodup

def Components.empty : Components := ⟨[], [], .nil⟩

/-- Other schemas; of a name that is given twice the last one counts, at the place of the first. -/
def Components.withSchemas (c : Components) (schemas : List (String × Schema)) : Components :=
  ⟨Json.mergeEntries schemas, c.parameters, Json.nodup_mergeEntries schemas⟩

theorem Components.schemas_withSchemas (c : Components) {schemas : List (String × Schema)}
    (h : (schemas.map Prod.fst).Nodup) : (c.withSchemas schemas).schemas = schemas :=
  Json.mergeEntries_of_nodup h

end Document

open Document in
/-- An API document. -/
structure Document where
  openapi : Option String
  swagger : Option String
  info : Info
  paths : List (String × PathItem)
  components : Components

namespace Document

/-- The document without any key. -/
def empty : Document := ⟨none, none, ⟨none, none, none⟩, [], .empty⟩

/-- An operation where it stands in a document. -/
structure Endpoint where
  path : String
  method : Method
  operation : Operation
  item : PathItem

/-- The place of an operation in a document. -/
def Endpoint.location (e : Endpoint) : String := "paths." ++ e.path ++ "." ++ e.method.lower

/-- The operations in document order, path by path. -/
def endpoints (d : Document) : List Endpoint :=
  d.paths.flatMap fun (path, item) =>
    item.operations.map fun (method, operation) => ⟨path, method, operation, item⟩

end Document

end TypedClient
