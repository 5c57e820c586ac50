import TypedClient.Json.Value
import TypedClient.Model.Serialized

/-! Findings about a document. -/

namespace TypedClient

namespace Diagnostic

inductive Severity
  /-- Stops generation before any output. -/
  | error
  /-- Generation goes on, but the output may not be what was meant. -/
  | warning
  /-- Something was simplified or skipped. -/
  | info
  deriving DecidableEq, Repr

/-- The word in front of a displayed finding. -/
def Severity.word : Severity → String
  | .error => "error"
  | .warning => "warning"
  | .info => "info"

/-- The name in the JSON form of a finding. -/
def Severity.title : Severity → String
  | .error => "Error"
  | .warning => "Warning"
  | .info => "Info"

end Diagnostic

open Diagnostic in
/-- A finding, with the phase that made it and the place in the document that it is about. -/
structure Diagnostic where
  severity : Severity
  phase : String
  message : String
  location : Option String

namespace Diagnostic

/-- The finding on one line. -/
def display (d : Diagnostic) : String :=
  d.severity.word ++ ": " ++ d.message ++
    (match d.location with
      | none => ""
      | some location => " (at " ++ location ++ ")")

def toJson (d : Diagnostic) : Json.Value :=
  .object [("severity", .string d.severity.title), ("phase", .string d.phase),
    ("message", .string d.message), ("location", .ofOption d.location)]

end Diagnostic

end TypedClient
