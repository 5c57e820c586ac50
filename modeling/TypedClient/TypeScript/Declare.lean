import TypedClient.TypeScript.Module
import TypedClient.TypeScript.PathLiteral
import TypedClient.TypeScript.Signature

/-! The declarations of schemas and operations. A list of string literals becomes an
alias, every other schema an interface of the properties that it declares itself;
an operation becomes a request interface when it takes input, a response alias,
and a client function. -/

namespace TypedClient.TypeScript

open Code Config

/-- The name under which the client imports the types. -/
def typesNamespace : String := "ApiTypes"

/-- The helper that every client function calls. -/
def serviceFunction : String := "useApiService"

/-- A property as a field of an interface. -/
def propertyField (compose : Compose) (required : List String) (name : String)
    (schema : Model.Schema) : Field :=
  .plain name (!required.contains name) (Text.noteLines schema.description)
    (schemaType compose schema)

/-- The declaration of a named schema. -/
def Declaration.ofEntry (compose : Compose) (entry : Model.Entry) : Declaration :=
  let comments := Text.noteLines entry.schema.description
  if entry.schema.isLiterals then
    .alias ⟨entry.name, comments, schemaType compose entry.schema⟩
  else
    .interface ⟨entry.name, comments, entry.fields.properties.map fun (name, schema) =>
      propertyField compose entry.fields.required name schema⟩

/-- A parameter as a field of a request. -/
def paramField (optional : Bool) (p : ParamType) : Field := .plain p.name optional p.notes p.type

namespace Signature

/-- The fields of a request: path parameters, the nested query, the body. -/
def requestFields (s : Signature) : List Field :=
  s.pathParams.map (paramField false) ++
    (if s.hasQuery then
      [.nested "query" s.queryOptional [] (s.queryParams.map fun p => paramField (!p.required) p)]
    else []) ++
    match s.bodyType with
    | none => []
    | some type => [.plain "body" false [] type]

/-- The request interface of an operation that takes input. -/
def request (s : Signature) : Option Interface :=
  if s.takesInput then some ⟨s.requestName, [], s.requestFields⟩ else none

def response (s : Signature) : Alias := ⟨s.responseName, [], s.responseType⟩

/-- A type as the client refers to it. -/
def imported (type : String) : String := typesNamespace ++ "." ++ type

/-- The path as a template literal over the path parameters. -/
def template (s : Signature) : String := pathLiteral s.path (s.pathParams.map (·.name))

/-- What is handed to the helper beside the path. -/
def options (s : Signature) : List Entry :=
  [.shorthand "baseURL", .text "method" s.method.upper] ++
    (if s.hasQuery then [.expr "query" "params.query"] else []) ++
    (if s.hasBody then [.expr "body" "params.body"] else [])

/-- The call of the helper. -/
def call (s : Signature) : Fragment :=
  .block ("return await " ++ serviceFunction ++ "<" ++ imported s.responseName ++ ">(" ++
    s.template ++ r", {") (entryFragments s.options) (some r"})")

/-- The client function: one call of the helper. -/
def function (s : Signature) : Function :=
  { name := s.functionName
    comments := [s.label]
    params := if s.takesInput then [⟨"params", some (imported s.requestName), none⟩] else []
    returns := some ("Promise<" ++ imported s.responseName ++ ">")
    isAsync := true
    exported := false
    body := [s.call] }

end Signature

end TypedClient.TypeScript
