import TypedClient.Lint.Basic
import TypedClient.Route.OperationId

/-! Operations that share names. Two operations collide when their identifiers agree
in Pascal case, for then they declare the same types and the same function. -/

namespace TypedClient.Lint

open Document Route

/-- The identifier of an operation of a document. -/
def endpointId (e : Endpoint) : String := operationId e.method e.path e.operation.operationId

/-- The name that operations must not share. -/
def nameKey (e : Endpoint) : String := Text.pascalCase (endpointId e)

/-- An operation by its method and path. -/
def callSite (e : Endpoint) : String := e.method.upper ++ " " ++ e.path

/-- The finding that `e` takes the names of the operation at `first`. -/
def collision (config : Config) (e : Endpoint) (first : String) : Diagnostic :=
  { severity := if config.generation.uniqueOperationIds then .error else .warning
    phase := phase
    message := "operation '" ++ endpointId e ++ "' (" ++ callSite e ++
      ") generates the same names as " ++ first
    location := some e.location }

/-- The collisions among endpoints, given the names taken before and by whom. -/
def collisions (config : Config) (seen : List (String × String)) : List Endpoint → List Diagnostic
  | [] => []
  | e :: rest =>
    match seen.lookup (nameKey e) with
    | some first => collision config e first :: collisions config seen rest
    | none => collisions config (seen ++ [(nameKey e, callSite e)]) rest

/-- Reports each operation whose names an earlier one has: a warning, or an error when the settings
ask for unique identifiers. -/
def duplicateOperationId : Lint :=
  ⟨"duplicate-operation-id", fun config d => collisions config [] d.endpoints⟩

end TypedClient.Lint
