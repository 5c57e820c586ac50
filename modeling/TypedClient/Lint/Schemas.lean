import TypedClient.Document.Walk
import TypedClient.Lint.Basic

/-! Schemas that are simplified or missing: alternatives and non-string enumerations
are ignored, a composition may keep one branch only, and a body or an answer
without a JSON schema has the unknown type. -/

namespace TypedClient.Lint

open Document Config

/-- A list of branches that is given and not empty. -/
def hasBranches (branches : Option (List Document.Schema)) : Bool :=
  match branches with
  | some (_ :: _) => true
  | _ => false

/-- What is said about a keyword that is ignored. -/
def ignoredKeyword (keyword : String) (branches : Option (List Document.Schema)) : List String :=
  if hasBranches branches then [keyword ++ " is not supported and is ignored"] else []

/-- What is said about a composition of which one branch is used. -/
def cutComposition (compose : Compose) (branches : Option (List Document.Schema)) : List String :=
  match compose, branches with
  | .first, some (a :: b :: rest) =>
    ["allOf has " ++ toString (a :: b :: rest).length ++ " branches; only the first is used"]
  | _, _ => []

/-- What is said about an enumeration on another type than strings. -/
def ignoredEnum (s : Document.Schema) : List String :=
  if s.literals.isSome && s.reference.isNone && s.typeName != some "string" then
    ["enum on type '" ++ s.typeName.getD "none" ++ "' is not supported and is ignored"]
  else []

/-- All that is said about a schema. -/
def schemaNotes (compose : Compose) (s : Document.Schema) : List String :=
  ignoredKeyword "oneOf" s.oneOf ++ ignoredKeyword "anyOf" s.anyOf ++
    cutComposition compose s.allOf ++ ignoredEnum s

/-- What is said about a request body without a JSON schema. -/
def bodyNote (body : RequestBody) : Option String :=
  if (jsonSchema body.content).isNone && !body.content.isEmpty then
    some ("request body has no application/json schema (" ++
      ", ".intercalate (body.content.map (·.1)) ++ "); the body type is any")
  else none

/-- Notes schemas and request bodies that are simplified. -/
def unsupportedSchema : Lint :=
  ⟨"unsupported-schema", fun config d =>
    (d.walk.flatMap fun v =>
      (schemaNotes config.generation.compose v.schema).map (note v.location)) ++
      d.endpoints.filterMap fun e =>
        (e.operation.requestBody.bind bodyNote).map (note e.location)⟩

/-- Notes operations whose answer has the unknown type. -/
def missingResponse : Lint :=
  ⟨"missing-response", fun _ d =>
    (d.endpoints.filter fun e => e.operation.successSchema.isNone).map fun e =>
      note e.location "no 200 application/json response schema; the response type is any"⟩

end TypedClient.Lint
