import TypedClient.Pipeline.Run
import TypedClient.Report

/-! Checking a document: all lints run and nothing is written. -/

namespace TypedClient

open Pipeline Report

/-- The summary of an analyzed context. -/
def Pipeline.Context.summary? (c : Context) : Option Summary :=
  match c.api, c.counts with
  | some api, some counts => some ⟨c.config.client.title.getD api.info.title, api.info.version, counts⟩
  | _, _ => none

/-- A finding with its place on a second line. -/
def Diagnostic.located (d : Diagnostic) : String :=
  d.message ++ (match d.location with
    | none => ""
    | some location => "\n  --> " ++ location)

/-- The context after all lints, lowered and analyzed when no finding is an error. -/
def checked (c : Context) : Context :=
  let linted := lint Lint.all c
  if linted.hasErrors then linted
  else
    match analyze (lower linted) with
    | .ok analyzed => analyzed
    | .error _ => linted

/-- Checks a document. -/
def check (d : Document) (config : Config) (spec : String) : CheckReport :=
  let c := checked (.new d config)
  { spec := spec
    errors := (c.withSeverity .error).map Diagnostic.located
    warnings := (c.withSeverity .warning).map Diagnostic.located
    infos := (c.withSeverity .info).map Diagnostic.located
    summary := c.summary? }

end TypedClient
