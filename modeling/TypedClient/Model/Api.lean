import TypedClient.Model.Catalog
import TypedClient.Route.OperationId
import TypedClient.Text.Lines

/-! An API as code generation sees it: named schemas and operations, in the order of
the document. -/

namespace TypedClient

open Route Text

namespace Model

/-- Where a parameter that reaches the client is carried. -/
inductive Place
  | path | query
  deriving DecidableEq, Repr

def Place.name : Place → String
  | .path => "path"
  | .query => "query"

structure Parameter where
  name : String
  place : Place
  required : Bool
  schema : Option Schema
  description : Option String

/-- A request body with its JSON schema, if it has one. -/
structure RequestBody where
  schema : Option Schema
  required : Bool
  description : Option String

structure Operation where
  method : Method
  path : String
  /-- The identifier that the document declares. -/
  declaredId : Option String
  summary : Option String
  description : Option String
  parameters : List Parameter
  requestBody : Option RequestBody
  /-- The schema of a successful answer. -/
  response : Option Schema

namespace Operation

/-- The identifier, declared or derived. -/
def id (op : Operation) : String := operationId op.method op.path op.declaredId

def pathParameters (op : Operation) : List Parameter := op.parameters.filter (·.place == .path)

def queryParameters (op : Operation) : List Parameter := op.parameters.filter (·.place == .query)

/-- Whether the operation takes any input. -/
def takesInput (op : Operation) : Bool := !op.parameters.isEmpty || op.requestBody.isSome

/-- The description on one line. -/
def joinedDescription (op : Operation) : String :=
  trim (" ".intercalate (noteLines op.description))

/-- One line about the operation: the summary, else the description on one line, else the method
and the path. -/
def label (op : Operation) : String :=
  let summary := trim (op.summary.getD "")
  if !summary.isEmpty then summary
  else if !op.joinedDescription.isEmpty then op.joinedDescription
  else op.method.upper ++ " " ++ op.path

end Operation

/-- The title, version and description of an API. -/
structure Meta where
  title : String
  version : String
  description : Option String

end Model

open Model in
/-- An API: what it is called, its schemas and its operations. -/
structure Api where
  info : Meta
  catalog : Catalog
  operations : List Operation

end TypedClient
