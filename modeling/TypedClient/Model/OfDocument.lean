import TypedClient.Diagnostic
import TypedClient.Document.Reference
import TypedClient.Model.Api

/-! The API that a document describes. This never fails: what is not supported
becomes the unknown type, and parameters that a client cannot carry are skipped
with a note. -/

namespace TypedClient

namespace Model

/-- The text of an enumerated value: a string as it is, anything else in JSON. -/
def literalText : Json.Value → String
  | .string s => s
  | value => value.compact

/-- The branches of a composition: those of `allOf`, and the properties beside it as one more. -/
def composedBranches (branches : List Schema) (fields : Fields) : List Schema :=
  branches ++
    if fields.properties.isEmpty then [] else [.mk (.object fields.properties fields.required) none]

/-- The shape that a type name asks for. Properties without a type still make an object. -/
def Shape.ofType (type : Option String) (literals : Option (List Json.Value)) (item : Schema)
    (declared : Bool) (fields : Fields) : Shape :=
  match type with
  | some "string" =>
    match literals with
    | some (value :: values) => .literals ((value :: values).map literalText)
    | _ => .scalar .string
  | some "number" => .scalar .number
  | some "integer" => .scalar .integer
  | some "boolean" => .scalar .boolean
  | some "array" => .array item
  | some "object" => .object fields.properties fields.required
  | some _ => .unknown
  | none => if declared then .object fields.properties fields.required else .unknown

mutual

/-- The schema that a schema object describes: a reference wins, then a composition, then the
type. -/
def Schema.ofDocument : Document.Schema → Schema
  | ⟨reference, type, literals, _, description, items, properties, required, allOf, _, _⟩ =>
    let item := optionalItem items
    let fields := ⟨optionalProperties properties, required⟩
    let branches := optionalBranches allOf
    .mk
      (match reference with
        | some pointer => .reference (Document.referenceName pointer)
        | none =>
          if branches.isEmpty then
            .ofType (type.bind Document.TypeName.primary) literals item properties.isSome fields
          else .composed (composedBranches branches fields))
      description

/-- The item type of an array, unknown when none is given. -/
def optionalItem : Option Document.Schema → Schema
  | none => .mk .unknown none
  | some item => Schema.ofDocument item

def optionalProperties : Option (List (String × Document.Schema)) → List (String × Schema)
  | none => []
  | some properties => namedSchemas properties

def namedSchemas : List (String × Document.Schema) → List (String × Schema)
  | [] => []
  | (name, schema) :: rest => (name, Schema.ofDocument schema) :: namedSchemas rest

def optionalBranches : Option (List Document.Schema) → List Schema
  | none => []
  | some branches => schemas branches

def schemas : List Document.Schema → List Schema
  | [] => []
  | schema :: rest => Schema.ofDocument schema :: schemas rest

end

/-- The properties that a schema object itself declares. -/
def Fields.ofDocument (s : Document.Schema) : Fields :=
  ⟨optionalProperties s.properties, s.required⟩

/-- The catalog of named schema objects, filled one after the other. -/
def Catalog.ofDocument (named : List (String × Document.Schema)) : Catalog :=
  named.foldl (fun catalog (name, s) => catalog.insert name (.ofDocument s) (.ofDocument s)) .empty

/-- The phase that skips parameters. -/
def loweringPhase : String := "lower"

/-- The note about a parameter that a client cannot carry. -/
def skippedParameter (location name : String) (place : Option Document.Place) : Diagnostic :=
  let kind := (place.map Document.Place.name).getD "unplaced"
  ⟨.info, loweringPhase, kind ++ " parameter '" ++ name ++ "' is not supported and is skipped",
    some location⟩

/-- A path or query parameter; path parameters are always required. -/
def Parameter.ofDocument (place : Place) (name : String) (p : Document.Parameter) : Parameter :=
  ⟨name, place, p.required || place == .path, p.schema.map Schema.ofDocument, p.description⟩

/-- What becomes of a parameter: nothing when it has no name, a parameter of the client, or a note
that it is skipped. -/
def lowerParameter (location : String) (p : Document.Parameter) :
    Option (Parameter ⊕ Diagnostic) :=
  match p.name with
  | none => none
  | some name =>
    if name.isEmpty then none
    else
      match p.place with
      | some .path => some (.inl (.ofDocument .path name p))
      | some .query => some (.inl (.ofDocument .query name p))
      | other => some (.inr (skippedParameter location name other))

/-- The parameters of an operation after lowering, with the notes among them. -/
def lowerParameters (d : Document) (e : Document.Endpoint) : List (Parameter ⊕ Diagnostic) :=
  (d.effectiveParameters e.item e.operation).filterMap (lowerParameter e.location)

def RequestBody.ofDocument (b : Document.RequestBody) : RequestBody :=
  ⟨(Document.jsonSchema b.content).map Schema.ofDocument, b.required, b.description⟩

def Operation.ofDocument (d : Document) (e : Document.Endpoint) : Operation :=
  { method := e.method
    path := e.path
    declaredId := e.operation.operationId
    summary := e.operation.summary
    description := e.operation.description
    parameters := (lowerParameters d e).filterMap Sum.getLeft?
    requestBody := e.operation.requestBody.map .ofDocument
    response := e.operation.successSchema.map Schema.ofDocument }

/-- The title of a document without one. -/
def defaultTitle : String := "API"

def Meta.ofDocument (i : Document.Info) : Meta :=
  ⟨((i.title.filter Text.isGiven).getD defaultTitle), i.version.getD "", i.description⟩

end Model

open Model

/-- The API that a document describes. -/
def Api.ofDocument (d : Document) : Api :=
  { info := .ofDocument d.info
    catalog := .ofDocument d.components.schemas
    operations := d.endpoints.map (.ofDocument d) }

/-- The notes about parameters that the API leaves out, in document order. -/
def Api.skipped (d : Document) : List Diagnostic :=
  d.endpoints.flatMap fun e => (lowerParameters d e).filterMap Sum.getRight?

end TypedClient
