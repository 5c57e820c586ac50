import TypedClient.Lint.Names
import TypedClient.Lint.Paths
import TypedClient.Lint.References
import TypedClient.Lint.Schemas

/-! The lints that a run applies, and the choice of lints by name. -/

namespace TypedClient.Lint

/-- All lints, in the order in which they report. -/
def all : List Lint :=
  [duplicateOperationId, unresolvedReference, pathParameter, unsupportedSchema, missingResponse]

/-- The lint of a name. -/
def ofName? (name : String) : Option Lint := all.find? (·.name == name)

end TypedClient.Lint
