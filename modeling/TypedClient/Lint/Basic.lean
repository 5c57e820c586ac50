import TypedClient.Config.Basic
import TypedClient.Diagnostic
import TypedClient.Document.Basic

/-! Lints: named checks of a document under the settings of a run. -/

namespace TypedClient

/-- A check and the name by which it is chosen. -/
structure Lint where
  name : String
  check : Config → Document → List Diagnostic

namespace Lint

/-- The phase that lints run in. -/
def phase : String := "validate"

def warning (location message : String) : Diagnostic := ⟨.warning, phase, message, some location⟩

def note (location message : String) : Diagnostic := ⟨.info, phase, message, some location⟩

/-- The lints' findings, lint by lint. -/
def runAll (lints : List Lint) (config : Config) (d : Document) : List Diagnostic :=
  lints.flatMap fun lint => lint.check config d

end Lint

end TypedClient
