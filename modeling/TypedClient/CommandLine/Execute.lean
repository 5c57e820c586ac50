import TypedClient.CommandLine.Command
import TypedClient.Generate
import TypedClient.Load

/-! Carrying out commands on a disk. -/

namespace TypedClient

open Files

namespace CommandLine

/-- How a run ends: its exit code and what it prints. -/
structure Outcome where
  exit : Nat
  output : List String
  errors : List String

/-- A failed run with its reason. -/
def Outcome.failed (reason : String) : Outcome := ⟨1, [], [reason]⟩

/-- A run that prints lines, the warnings among them as errors. -/
def Outcome.ofLines (exit : Nat) (lines : List Report.Line) : Outcome :=
  ⟨exit, (lines.filter fun line => !line.isWarning).map Report.Line.render,
    (lines.filter Report.Line.isWarning).map Report.Line.render⟩

/-- The settings with the document that the command line names. -/
def InputOptions.load (o : InputOptions) (d : Disk) : Except LoadError Config := do
  let config ← d.loadConfigOrDefault o.config
  return { config with input := ⟨o.spec.getD config.input.spec⟩ }

/-- The settings with all that the command line sets. -/
def GenerateOptions.adjust (o : GenerateOptions) (c : Config) : Config :=
  { c with
    output := { c.output with dir := o.output.getD c.output.dir }
    client := { c.client with baseUrl := o.baseUrl.getD c.client.baseUrl }
    generation := { c.generation with timestamp := c.generation.timestamp && !o.noTimestamp } }

/-- The settings and the document of a generation. -/
def GenerateOptions.load (o : GenerateOptions) (d : Disk) : Except LoadError (Config × Document) := do
  let config := o.adjust (← o.input.load d)
  return (config, ← d.loadDocument config.input.spec)

/-- Loads, generates and reports. -/
def generateAt (o : GenerateOptions) (now : String) (d : Disk) : Outcome × Disk :=
  match o.load d with
  | .error e => (.failed e.message, d)
  | .ok (config, document) =>
    match generate document config ⟨o.dryRun, o.visualize⟩ now d with
    | .error failure d => (.failed failure.message, d)
    | .ok report d => (.ofLines 0 report.lines, d)

/-- Loads the settings and the document of a check, and checks. -/
def checkOn (o : InputOptions) (d : Disk) : Except LoadError CheckReport := do
  let config ← o.load d
  return check (← d.loadDocument config.input.spec) config config.input.spec

/-- What is printed after the settings file was written. -/
def initLines (path : String) : List String :=
  ["Created " ++ path, "", "Next steps:",
    "  edit [input] spec to point at your OpenAPI JSON document", "  apigen generate"]

/-- Writes the settings file into a directory, unless it is there. -/
def initIn (dir : String) (d : Disk) : Outcome × Disk :=
  let path := join dir Config.fileName
  match writeFile .ifMissing path Config.template d with
  | .error failure d => (.failed ("Failed to write " ++ path ++ ": " ++ failure.message), d)
  | .ok .skipped d => (.failed (path ++ " already exists"), d)
  | .ok .written d => (⟨0, initLines path, []⟩, d)

/-- How a command line that is not carried out ends. -/
def Stop.outcome : Stop → Outcome
  | .usage => ⟨2, [], usageLines⟩
  | .help => ⟨0, usageLines, []⟩
  | .version => ⟨0, [versionLine], []⟩

end CommandLine

open CommandLine

/-- Carries out a command at the time `now`. -/
def Command.execute (c : Command) (now : String) (d : Disk) : Outcome × Disk :=
  match c with
  | .generate options => generateAt options now d
  | .check input =>
    match checkOn input d with
    | .error e => (.failed e.message, d)
    | .ok report => (.ofLines (if report.isValid then 0 else 1) report.lines, d)
  | .init dir => initIn dir d
  | .completions shell => (⟨0, [shell.script], []⟩, d)

/-- Carries out a command line. -/
def execute (words : List String) (now : String) (d : Disk) : Outcome × Disk :=
  match Command.ofArguments words with
  | .error stop => (stop.outcome, d)
  | .ok command => command.execute now d

end TypedClient
