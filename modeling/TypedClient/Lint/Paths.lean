import TypedClient.Document.Reference
import TypedClient.Lint.Basic
import TypedClient.Route.Placeholders

/-! Paths whose placeholders and path parameters differ. -/

namespace TypedClient.Lint

open Document Route

/-- The names of the path parameters that apply to an operation. -/
def pathParameterNames (d : Document) (e : Endpoint) : List String :=
  ((d.effectiveParameters e.item e.operation).filter (·.place == some .path)).filterMap (·.name)

/-- The placeholders without a parameter, then the parameters without a placeholder. -/
def pathFindings (d : Document) (e : Endpoint) : List Diagnostic :=
  let holes := placeholders e.path
  let declared := pathParameterNames d e
  ((holes.filter fun name => !declared.contains name).map fun name =>
    warning e.location ("path placeholder '" ++ name ++ "' has no matching path parameter")) ++
  (declared.filter fun name => !holes.contains name).map fun name =>
    warning e.location ("path parameter '" ++ name ++ "' does not appear in the path")

/-- Reports differences between the placeholders of a path and its path parameters. -/
def pathParameter : Lint := ⟨"path-parameter", fun _ d => d.endpoints.flatMap (pathFindings d)⟩

end TypedClient.Lint
