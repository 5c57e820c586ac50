import TypedClient.Model.Api
import TypedClient.TypeScript.SchemaType

/-! What the client needs to know about one operation: its names, and the types of
its input and its answer. -/

namespace TypedClient.TypeScript

open Config Route

/-- A path or query parameter with its type. -/
structure ParamType where
  name : String
  type : String
  required : Bool
  notes : List String

structure Signature where
  method : Method
  path : String
  operationId : String
  functionName : String
  /-- The common start of the names of the two types. -/
  typeName : String
  /-- Whether the client function takes an argument. -/
  takesInput : Bool
  pathParams : List ParamType
  queryParams : List ParamType
  /-- Whether the nested `query` field is optional. -/
  queryOptional : Bool
  /-- The type of the request body, if there is one. -/
  bodyType : Option String
  responseType : String
  label : String

namespace Signature

def requestName (s : Signature) : String := s.typeName ++ "Request"

def responseName (s : Signature) : String := s.typeName ++ "Response"

def hasQuery (s : Signature) : Bool := !s.queryParams.isEmpty

def hasBody (s : Signature) : Bool := s.bodyType.isSome

end Signature

def ParamType.ofParameter (compose : Compose) (p : Model.Parameter) : ParamType :=
  ⟨p.name, optionalType compose p.schema, p.required, Text.noteLines p.description⟩

/-- Whether the `query` field of a request with the given query parameters is optional. -/
def queryOptional (rule : QueryField) (params : List ParamType) : Bool :=
  match rule with
  | .required => false
  | .optionalWhenAllOptional => !params.isEmpty && params.all fun p => !p.required

/-- The signature of an operation. -/
def Signature.ofOperation (settings : Generation) (op : Model.Operation) : Signature :=
  let query := op.queryParameters.map (.ofParameter settings.compose)
  { method := op.method
    path := op.path
    operationId := op.id
    functionName := TypeScript.functionName op.id
    typeName := TypeScript.typeName op.id
    takesInput := op.takesInput
    pathParams := op.pathParameters.map (.ofParameter settings.compose)
    queryParams := query
    queryOptional := TypeScript.queryOptional settings.queryField query
    bodyType := op.requestBody.map fun body => optionalType settings.compose body.schema
    responseType := optionalType settings.compose op.response
    label := op.label }

end TypedClient.TypeScript
