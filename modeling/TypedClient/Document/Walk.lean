import TypedClient.Document.Basic

/-! The schemas of a document with the places where they stand, each before the
schemas nested in it. -/

namespace TypedClient.Document

/-- A schema and the dotted path that leads to it. -/
structure Visit where
  location : String
  schema : Schema

/-- The place of an element of a list. -/
def indexed (location keyword : String) (index : Nat) : String :=
  location ++ "." ++ keyword ++ "[" ++ toString index ++ "]"

mutual

/-- A schema and every schema nested in it: items, properties, then the branches of `allOf`,
`oneOf` and `anyOf`. -/
def Schema.walk (location : String) : Schema → List Visit
  | ⟨reference, type, literals, format, description, items, properties, required, allOf, oneOf,
      anyOf⟩ =>
    ⟨location, ⟨reference, type, literals, format, description, items, properties, required, allOf,
      oneOf, anyOf⟩⟩ ::
      (walkOptional (location ++ ".items") items ++ walkProperties location properties ++
        walkBranches location "allOf" allOf ++ walkBranches location "oneOf" oneOf ++
        walkBranches location "anyOf" anyOf)

/-- A schema that may be absent. -/
def walkOptional (location : String) : Option Schema → List Visit
  | none => []
  | some schema => schema.walk location

def walkProperties (location : String) : Option (List (String × Schema)) → List Visit
  | none => []
  | some properties => walkNamed (location ++ ".properties.") properties

def walkNamed (stem : String) : List (String × Schema) → List Visit
  | [] => []
  | (name, schema) :: rest => schema.walk (stem ++ name) ++ walkNamed stem rest

def walkBranches (location keyword : String) : Option (List Schema) → List Visit
  | none => []
  | some branches => walkIndexed location keyword 0 branches

def walkIndexed (location keyword : String) (index : Nat) : List Schema → List Visit
  | [] => []
  | schema :: rest =>
    schema.walk (indexed location keyword index) ++ walkIndexed location keyword (index + 1) rest

end

/-- The inline schemas of a list of parameters. -/
def walkParameters (location : String) (parameters : List Parameter) : List Visit :=
  parameters.zipIdx.flatMap fun (p, index) =>
    walkOptional (indexed location "parameters" index ++ ".schema") p.schema

/-- The schemas of an operation: parameters, request body, responses. -/
def walkOperation (location : String) (op : Operation) : List Visit :=
  walkParameters location op.parameters ++
    walkOptional (location ++ ".requestBody") (op.requestBody.bind (jsonSchema ·.content)) ++
    op.responses.flatMap fun (status, response) =>
      walkOptional (location ++ ".responses." ++ status) (jsonSchema response.content)

/-- All schemas of a document: shared schemas and parameters, then path by path. -/
def walk (d : Document) : List Visit :=
  walkNamed "components.schemas." d.components.schemas ++
    (d.components.parameters.flatMap fun (name, p) =>
      walkOptional ("components.parameters." ++ name ++ ".schema") p.schema) ++
    d.paths.flatMap fun (path, item) =>
      walkParameters ("paths." ++ path) item.parameters ++
        item.operations.flatMap fun (method, op) =>
          walkOperation ("paths." ++ path ++ "." ++ method.lower) op

end TypedClient.Document
