import TypedClient.CommandLine.Arguments
import TypedClient.CommandLine.Completions
import TypedClient.Config.Basic

/-! The commands of the program and how they are written. -/

namespace TypedClient

namespace CommandLine

/-- The name and version of the program. -/
def versionLine : String := programName ++ " 0.3.0"

/-- What commands that read a document have in common. -/
structure InputOptions where
  /-- The path of the settings. -/
  config : String
  /-- A document in place of the configured one. -/
  spec : Option String

structure GenerateOptions where
  input : InputOptions
  output : Option String
  baseUrl : Option String
  dryRun : Bool
  noTimestamp : Bool
  visualize : Bool

end CommandLine

open CommandLine in
inductive Command
  | generate (options : GenerateOptions)
  | check (input : InputOptions)
  /-- Writes the settings file into a directory. -/
  | init (dir : String)
  | completions (shell : Shell)

namespace CommandLine

def helpSwitch : Switch := ⟨"help", some 'h', .help⟩

def verboseSwitch : Switch := ⟨"verbose", some 'v', .count⟩

def inputSwitches : List Switch :=
  [⟨"config", some 'c', .value false⟩, ⟨"spec", some 's', .value false⟩]

/-- What may stand before the command. -/
def topGrammar : Grammar := ⟨[verboseSwitch, helpSwitch, ⟨"version", some 'V', .version⟩], []⟩

def checkGrammar : Grammar := ⟨[verboseSwitch, helpSwitch] ++ inputSwitches, []⟩

def generateGrammar : Grammar :=
  ⟨[verboseSwitch, helpSwitch] ++ inputSwitches ++
    [⟨"output", some 'o', .value false⟩, ⟨"base-url", none, .value true⟩,
      ⟨"dry-run", none, .flag⟩, ⟨"no-timestamp", none, .flag⟩, ⟨"visualize", none, .flag⟩], []⟩

def initGrammar : Grammar := ⟨[verboseSwitch, helpSwitch], [fun dir => !dir.isEmpty]⟩

def completionsGrammar : Grammar :=
  ⟨[verboseSwitch, helpSwitch], [fun word => (Shell.ofName? word).isSome]⟩

def inputOptions (m : Matches) : InputOptions :=
  ⟨(m.value? "config").getD Config.fileName, m.value? "spec"⟩

/-- Help about a command that exists. -/
def helpAbout : List String → Stop
  | [] => .help
  | [name] => if commandNames.contains name then .help else .usage
  | _ => .usage

/-- Reads the words behind the name of a command. -/
def readCommand (name : String) (words : List String) : Except Stop Command :=
  match name with
  | "generate" => do
    let (m, _) ← read generateGrammar [] (.empty, none) words
    return .generate ⟨inputOptions m, m.value? "output", m.value? "base-url", m.has "dry-run",
      m.has "no-timestamp", m.has "visualize"⟩
  | "check" => do
    let (m, _) ← read checkGrammar [] (.empty, none) words
    return .check (inputOptions m)
  | "init" => do
    let (m, _) ← read initGrammar [] (.empty, none) words
    return .init (m.words.head?.getD ".")
  | "completions" => do
    let (m, _) ← read completionsGrammar [] (.empty, none) words
    match m.words.head?.bind Shell.ofName? with
    | some shell => return .completions shell
    | none => throw .usage
  | "help" => .error (helpAbout words)
  | _ => .error .usage

end CommandLine

/-- Reads a command line. -/
def Command.ofArguments (words : List String) : Except CommandLine.Stop Command := do
  match ← CommandLine.read CommandLine.topGrammar CommandLine.commandNames (.empty, none) words with
  | (_, some (name, rest)) => CommandLine.readCommand name rest
  | (_, none) => throw .usage

end TypedClient
