import TypedClient.Lint.All
import TypedClient.Model.OfDocument
import TypedClient.Pipeline.Context

/-! Running phases with hooks around them. A step works on the context and on a world
that hooks may act on, such as a log or a disk; when it fails, what it has done to
both remains. -/

namespace TypedClient.Pipeline

/-- The context together with whatever hooks act on. -/
structure Session (ω : Type) where
  context : Context
  world : ω

/-- A step that may fail and keeps the session it has reached. -/
abbrev Step (ω : Type) := EStateM Failure (Session ω)

/-- A step on the context alone. -/
def Step.ofContext {ω : Type} (f : Context → Except Failure Context) : Step ω Unit := fun session =>
  match f session.context with
  | .ok context => .ok () { session with context := context }
  | .error failure => .error failure session

structure Phase (ω : Type) where
  name : String
  run : Step ω Unit

/-- Hooks called with the name of each phase, before it and after it. -/
structure Plugin (ω : Type) where
  before : String → Step ω Unit
  after : String → Step ω Unit

/-- Adds the findings of lints. -/
def lint (lints : List Lint) (c : Context) : Context :=
  { c with diagnostics := c.diagnostics ++ Lint.runAll lints c.config c.document }

/-- Lints, and fails when any finding so far is an error. -/
def validated (lints : List Lint) (c : Context) : Context × Option Failure :=
  let linted := lint lints c
  (linted, if linted.hasErrors then some (.invalid linted.errorCount) else none)

/-- Lowers the document, with the notes about what is left out. -/
def lower (c : Context) : Context :=
  { c with
    api := some (.ofDocument c.document)
    diagnostics := c.diagnostics ++ Api.skipped c.document }

/-- Counts what the API holds. -/
def analyze (c : Context) : Except Failure Context :=
  match c.api with
  | none => .error .notLowered
  | some api => .ok { c with counts := some (.ofApi api) }

namespace Phase

variable {ω : Type}

/-- The findings stay when the phase fails. -/
def validate (lints : List Lint) : Phase ω :=
  ⟨"validate", fun session =>
    let (context, failure) := validated lints session.context
    match failure with
    | none => .ok () { session with context := context }
    | some failure => .error failure { session with context := context }⟩

def lower : Phase ω := ⟨"lower", .ofContext fun c => .ok (Pipeline.lower c)⟩

def analyze : Phase ω := ⟨"analyze", .ofContext Pipeline.analyze⟩

end Phase

end Pipeline

/-- The lints that validate, plugins, and phases that come after the built-in ones. -/
structure Pipeline (ω : Type) where
  lints : List Lint
  plugins : List (Pipeline.Plugin ω)
  extra : List (Pipeline.Phase ω)

namespace Pipeline

variable {ω : Type}

/-- All lints and nothing else. -/
def default : Pipeline ω := ⟨Lint.all, [], []⟩

def phases (p : Pipeline ω) : List (Phase ω) :=
  [.validate p.lints, .lower, .analyze] ++ p.extra

/-- A phase between its hooks. -/
def runPhase (plugins : List (Plugin ω)) (phase : Phase ω) : Step ω Unit := do
  plugins.forM fun plugin => plugin.before phase.name
  phase.run
  plugins.forM fun plugin => plugin.after phase.name

/-- All phases, one after the other. -/
def steps (p : Pipeline ω) : Step ω Unit := p.phases.forM (runPhase p.plugins)

/-- Runs a document under settings. -/
def run (p : Pipeline ω) (d : Document) (config : Config) (world : ω) :
    EStateM.Result Failure (Session ω) Unit :=
  p.steps ⟨.new d config, world⟩

end Pipeline

end TypedClient
