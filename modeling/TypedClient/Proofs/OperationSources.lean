import TypedClient.Generator
import TypedClient.Model.OfDocument

/-! What generation takes from a document: its schemas one by one, and of each operation its path
and method, the operation object and the parameters that apply to it. The rest of the document does
not reach an operation. -/

namespace TypedClient

open Model

/-- What generation takes from an operation of a document. -/
structure OperationSource where
  path : String
  method : Route.Method
  /-- The parameters that apply to the operation. -/
  parameters : List Document.Parameter
  operation : Document.Operation

namespace OperationSource

/-- The operation that the code is generated for. -/
def toModel (s : OperationSource) : Operation :=
  let location := "paths." ++ s.path ++ "." ++ s.method.lower
  { method := s.method
    path := s.path
    declaredId := s.operation.operationId
    summary := s.operation.summary
    description := s.operation.description
    parameters := (s.parameters.filterMap (lowerParameter location)).filterMap Sum.getLeft?
    requestBody := s.operation.requestBody.map .ofDocument
    response := s.operation.successSchema.map Schema.ofDocument }

end OperationSource

namespace Document

def operationSource (d : Document) (e : Endpoint) : OperationSource :=
  ⟨e.path, e.method, d.effectiveParameters e.item e.operation, e.operation⟩

/-- The operations of a document, in its order. -/
def operationSources (d : Document) : List OperationSource := d.endpoints.map d.operationSource

theorem operationSources_eq (d : Document) :
    d.operationSources = d.paths.flatMap fun (path, item) => item.operations.map fun (method, op) =>
      ⟨path, method, d.effectiveParameters item op, op⟩ := by
  simp only [operationSources, endpoints, List.map_flatMap, List.map_map]
  rfl

/-- Of the document around it an operation sees the shared parameters alone. -/
theorem effectiveParameters_congr {d e : Document}
    (h : e.components.parameters = d.components.parameters) :
    e.effectiveParameters = d.effectiveParameters := by
  have hresolve : e.resolveParameter = d.resolveParameter := by
    funext p
    simp only [resolveParameter, h]
  funext item op
  simp only [effectiveParameters, hresolve]

/-- The names of the parameters of a place. Those without a name, and those with an empty one, are not
generated. -/
def carriedNames (place : Place) (parameters : List Parameter) : List String :=
  ((parameters.filter (·.place == some place)).filterMap (·.name)).filter (· ≠ "")

/-- The place that a generated parameter has in the document. -/
def declaredPlace : Model.Place → Place
  | .path => .path
  | .query => .query

/-- The generated parameters of a place have the names that the document gives to it. -/
theorem names_ofDocument (d : Document) (e : Endpoint) (place : Model.Place) :
    ((Model.Operation.ofDocument d e).parameters.filter (·.place == place)).map (·.name) =
      carriedNames (declaredPlace place) (d.effectiveParameters e.item e.operation) := by
  rw [Model.Operation.ofDocument, lowerParameters, carriedNames, List.filterMap_filterMap,
    List.filter_filterMap, List.map_filterMap, List.filterMap_filter, List.filter_filterMap]
  congr 1
  funext p
  unfold lowerParameter
  cases p.name with
  | none => cases p.place == some (declaredPlace place) <;> rfl
  | some name =>
    by_cases hempty : name = ""
    · cases p.place == some (declaredPlace place) <;> simp [hempty, Option.filter]
    · cases place <;> rcases p.place with _ | _ | _ | _ | _ | _ <;>
        simp [hempty, Model.Parameter.ofDocument, Option.filter, declaredPlace]

theorem operations_ofDocument (d : Document) :
    (Api.ofDocument d).operations = d.operationSources.map OperationSource.toModel := by
  rw [operationSources, List.map_map]
  rfl

/-- The generator of a document at the time `now`. -/
def generator (d : Document) (config : Config) (now : String) : Generator :=
  { api := .ofDocument d
    counts := .ofApi (.ofDocument d)
    config := config
    generatedAt := if config.generation.timestamp then some now else none }

theorem signatures_generator (d : Document) (config : Config) (now : String) :
    (d.generator config now).signatures =
      d.operationSources.map fun s => .ofOperation config.generation s.toModel := by
  rw [Generator.signatures, generator, operations_ofDocument, List.map_map]
  rfl

end Document

end TypedClient
