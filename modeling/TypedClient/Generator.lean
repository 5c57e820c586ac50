import TypedClient.Pipeline.Context
import TypedClient.TypeScript.Documents

/-! Generating the three documents from an analyzed API, in memory or on a disk. -/

namespace TypedClient

open Files

structure Generator where
  api : Api
  counts : Model.Counts
  config : Config
  /-- The time that the documents tell, if they tell one. -/
  generatedAt : Option String

/-- A generated file; the path is relative to the output directory. -/
structure GeneratedFile where
  path : String
  content : String
  deriving DecidableEq

namespace Generator

/-- Takes the results of a run out of its context. The documents tell the time `now` unless the
settings say otherwise. -/
def ofContext (c : Pipeline.Context) (now : String) : Except Pipeline.Failure Generator := do
  let (api, rest) ← c.takeApi
  let (counts, rest) ← rest.takeCounts
  return ⟨api, counts, rest.config, if rest.config.generation.timestamp then some now else none⟩

/-- The name of the generated language. -/
def language : String := "typescript"

/-- The title in headers: the configured one, else that of the API. -/
def title (g : Generator) : String := g.config.client.title.getD g.api.info.title

def signatures (g : Generator) : List TypeScript.Signature :=
  g.api.operations.map (.ofOperation g.config.generation)

def typesDocument (g : Generator) : TypeScript.TypesDocument :=
  { title := g.title
    generatedAt := g.generatedAt
    schemas := g.api.catalog.entries.map (.ofEntry g.config.generation.compose)
    endpoints := g.signatures.map fun s => ⟨s.request, s.response⟩ }

def clientDocument (g : Generator) : TypeScript.ClientDocument :=
  { title := g.title
    generatedAt := g.generatedAt
    typesImport := g.config.client.typesImport
    serviceImport := g.config.client.serviceImport
    baseUrl := g.config.client.baseUrl
    functions := g.signatures.map (·.function) }

/-- The generated files: types, client, helper. -/
def files (g : Generator) : List GeneratedFile :=
  [⟨g.config.output.types, g.typesDocument.render⟩,
    ⟨g.config.output.client, g.clientDocument.render⟩,
    ⟨g.config.output.service, TypeScript.serviceModule.render⟩]

/-- The paths that were written and those that were left alone. -/
structure Outcome where
  written : List String
  skipped : List String
  deriving DecidableEq

/-- The file that could not be written, and why. -/
structure WriteFailure where
  path : String
  cause : Files.Failure

def WriteFailure.message (f : WriteFailure) : String :=
  "failed to write " ++ f.path ++ ": " ++ f.cause.message

/-- Writes a file below a directory and notes what was done. -/
def writeInto (dir : String) (outcome : Outcome) (file : GeneratedFile) :
    EStateM WriteFailure Disk Outcome := fun disk =>
  match writeFile .always (join dir file.path) file.content disk with
  | .error cause disk => .error ⟨file.path, cause⟩ disk
  | .ok .written disk => .ok { outcome with written := outcome.written ++ [file.path] } disk
  | .ok .skipped disk => .ok { outcome with skipped := outcome.skipped ++ [file.path] } disk

/-- Writes all files below a directory, one after the other. -/
def generate (g : Generator) (dir : String) : EStateM WriteFailure Disk Outcome :=
  g.files.foldlM (writeInto dir) ⟨[], []⟩

end Generator

end TypedClient
