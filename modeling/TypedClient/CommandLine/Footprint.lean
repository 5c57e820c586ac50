import TypedClient.CommandLine.Execute

/-! What a command may touch, so that no more of a machine than that has to be looked
at or changed. -/

namespace TypedClient

open Files

namespace CommandLine

/-- The phases that leave a snapshot. -/
def builtInPhases : List String := ((Pipeline.default : Pipeline Disk).phases).map (·.name)

/-- The paths of a generation under settings. -/
def generationPaths (c : Config) : List String :=
  let debug := join c.output.dir Generate.debugDirectory
  c.input.spec :: ([c.output.types, c.output.client, c.output.service].map (join c.output.dir)) ++
    builtInPhases.map (Pipeline.snapshotPath debug)

end CommandLine

/-- The paths that a command reads or writes. They depend on the settings as far as the disk holds
them. -/
def Command.footprint (c : Command) (d : Disk) : List String :=
  match c with
  | .generate options =>
    options.input.config ::
      match options.input.load d with
      | .ok config => CommandLine.generationPaths (options.adjust config)
      | .error _ => []
  | .check input =>
    input.config ::
      match input.load d with
      | .ok config => [config.input.spec]
      | .error _ => []
  | .init dir => [join dir Config.fileName]
  | .completions _ => []

/-- The addresses reached by walking segments one after the other. -/
def Files.stops (here : Address) : List String → List Address
  | [] => [here]
  | part :: rest => here :: stops (if part == ".." then here.dropLast else here ++ [part]) rest

/-- The addresses on the way along a path, each after those above it. -/
def Files.trail (current : Address) (path : String) : List Address :=
  let parts := ((segments path.toList).filter fun part => !isInert part).map String.ofList
  (stops (if isAbsolute path then [] else current) parts).flatMap fun address =>
    (List.range (address.length + 1)).map address.take

/-- The nodes that are new or changed, in the order in which they came about. -/
def Files.Disk.changesSince (after before : Disk) : List (Address × Node) :=
  after.nodes.filter fun (address, node) => before.find address != some node

end TypedClient
