import TypedClient.Document.Reference
import TypedClient.Document.Walk
import TypedClient.Lint.Basic

/-! References that lead nowhere. A schema reference is kept by name even then, so
the generated code would name a type that nothing declares; a parameter reference
is dropped. -/

namespace TypedClient.Lint

open Document

/-- What is wrong with a schema reference, if anything. -/
def schemaProblem (d : Document) (reference : String) : Option String :=
  match below? schemaPointer reference with
  | some name =>
    if d.components.schemas.any (·.1 == name) then none
    else some ("reference to undefined schema '" ++ name ++ "'")
  | none =>
    some ("reference '" ++ reference ++ "' is not a local schema; it is emitted as '" ++
      referenceName reference ++ "'")

def schemaFinding (d : Document) (v : Visit) : Option Diagnostic :=
  (v.schema.reference.bind (schemaProblem d)).map (warning v.location)

/-- What is wrong with an entry of a parameter list, if anything. -/
def parameterProblem (d : Document) (p : Parameter) : Option String :=
  match p.reference, d.resolveParameter p with
  | some reference, none =>
    let problem :=
      if (below? parameterPointer reference).isSome then
        "reference to undefined parameter '" ++ referenceName reference ++ "'"
      else "parameter reference '" ++ reference ++ "' cannot be followed"
    some (problem ++ "; the parameter is skipped")
  | _, _ => none

def parameterFindings (d : Document) (location : String) (parameters : List Parameter) :
    List Diagnostic :=
  (parameters.filterMap (parameterProblem d)).map (warning location)

/-- Reports references to schemas, then references to parameters: first those of path items, then
those of operations. -/
def unresolvedReference : Lint :=
  ⟨"unresolved-reference", fun _ d =>
    d.walk.filterMap (schemaFinding d) ++
      (d.paths.flatMap fun (path, item) => parameterFindings d ("paths." ++ path) item.parameters) ++
      d.endpoints.flatMap fun e => parameterFindings d e.location e.operation.parameters⟩

end TypedClient.Lint
