import TypedClient.Check
import TypedClient.Pipeline.Snapshot

/-! Generating a client: the pipeline runs on the document, then the files are
previewed or written below the output directory. -/

namespace TypedClient

open Files Pipeline Report

namespace Generate

structure Options where
  /-- Show the files instead of writing them. -/
  dryRun : Bool
  /-- Leave a snapshot of each phase. -/
  visualize : Bool

/-- Why a generation fails. -/
inductive Failure
  | pipeline (failure : Pipeline.Failure)
  /-- The pipeline left no result behind. -/
  | noResult (failure : Pipeline.Failure)
  | write (failure : Generator.WriteFailure)

/-- The wording of a failure. -/
def Failure.message : Failure → String
  | .pipeline failure => "Pipeline failed (run `apigen check` for details): " ++ failure.message
  | .noResult failure => failure.message
  | .write failure => "Failed to generate code: " ++ failure.message

/-- Where snapshots go, below the output directory. -/
def debugDirectory : String := ".apigen/debug"

/-- The pipeline, with snapshots when they are wanted. -/
def pipeline (debug : String) (options : Options) : Pipeline Disk :=
  { Pipeline.default with plugins := if options.visualize then [snapshots debug] else [] }

/-- The files of a generator, shown or written. -/
def produce (g : Generator) (dir debug : String) (options : Options) :
    EStateM Failure Disk GenerationResult := fun disk =>
  if options.dryRun then .ok (.preview g.files) disk
  else
    match g.generate dir disk with
    | .ok outcome disk =>
      .ok (.written outcome dir (if options.visualize then some debug else none)) disk
    | .error failure disk => .error (.write failure) disk

end Generate

open Generate

/-- Generates the client of a document at the time `now`. -/
def generate (d : Document) (config : Config) (options : Options) (now : String) :
    EStateM Generate.Failure Disk GenerateReport := fun disk =>
  let dir := config.output.dir
  let debug := join dir debugDirectory
  match (pipeline debug options).run d config disk with
  | .error failure session => .error (.pipeline failure) session.world
  | .ok () session =>
    match Generator.ofContext session.context now with
    | .error failure => .error (.noResult failure) session.world
    | .ok generator =>
      match produce generator dir debug options session.world with
      | .error failure disk => .error failure disk
      | .ok result disk =>
        .ok
          { summary := ⟨generator.title, generator.api.info.version, generator.counts⟩
            warnings := session.context.warnings.map (·.message)
            result := result } disk

end TypedClient
