import TypedClient.Config.Basic
import TypedClient.Diagnostic
import TypedClient.Document.Basic
import TypedClient.Files.Write
import TypedClient.Model.Counts

/-! The state that a run hands from step to step. -/

namespace TypedClient.Pipeline

open Diagnostic

structure Context where
  document : Document
  config : Config
  /-- Present once the document is lowered. -/
  api : Option Api
  /-- Present once the API is analyzed. -/
  counts : Option Model.Counts
  diagnostics : List Diagnostic

/-- Why a step fails. -/
inductive Failure
  /-- Findings are errors; how many. -/
  | invalid (errors : Nat)
  /-- The analysis comes before the lowering. -/
  | notLowered
  /-- There is no API to take. -/
  | noApi
  /-- There are no counts to take. -/
  | noCounts
  /-- A hook refuses to go on. -/
  | refused (reason : String)
  | disk (failure : Files.Failure)

/-- The wording of a failure. -/
def Failure.message : Failure → String
  | .invalid errors => "Validation failed with " ++ toString errors ++ " error(s)"
  | .notLowered => "IR not set - AnalyzePhase must run after LowerPhase"
  | .noApi => "no IR in context; the lower phase has not run"
  | .noCounts => "no computed data in context; the analyze phase has not run"
  | .refused reason => reason
  | .disk failure => failure.message

namespace Context

/-- The state at the start of a run. -/
def new (d : Document) (config : Config) : Context := ⟨d, config, none, none, []⟩

def push (c : Context) (d : Diagnostic) : Context := { c with diagnostics := c.diagnostics ++ [d] }

def withSeverity (c : Context) (s : Severity) : List Diagnostic :=
  c.diagnostics.filter (·.severity == s)

def warnings (c : Context) : List Diagnostic := c.withSeverity .warning

def errorCount (c : Context) : Nat := (c.withSeverity .error).length

def hasErrors (c : Context) : Bool := c.diagnostics.any (·.severity == .error)

/-- Takes the API out. -/
def takeApi (c : Context) : Except Failure (Api × Context) :=
  match c.api with
  | some api => .ok (api, { c with api := none })
  | none => .error .noApi

/-- Takes the counts out. -/
def takeCounts (c : Context) : Except Failure (Model.Counts × Context) :=
  match c.counts with
  | some counts => .ok (counts, { c with counts := none })
  | none => .error .noCounts

end Context

end TypedClient.Pipeline
