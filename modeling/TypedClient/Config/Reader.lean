import TypedClient.Config.Basic
import TypedClient.Files.Path
import TypedClient.Source
import TypedClient.Toml.Table

/-! Reading the settings. Sections and keys are optional and unknown ones are refused;
the output paths must be given and must differ. -/

namespace TypedClient.Config

open Toml

/-- A string. -/
def text : Value → Option String
  | .string s => some s
  | _ => none

/-- A truth value. -/
def flag : Value → Option Bool
  | .bool b => some b
  | _ => none

/-- Something without content. -/
def isHollow : Value → Bool
  | .array [] => true
  | .table _ [] => true
  | _ => false

/-- One of several choices by name, or a table with that name as its only key and nothing in it. -/
def choice {α : Type} (ofName : String → Option α) : Value → Option α
  | .string name => ofName name
  | .table _ [(name, content)] => do
    let chosen ← ofName name
    if isHollow content then return chosen else none
  | _ => none

/-- The values of a section with the given keys: a table of them, or an array in the order of the
keys, of which only as many items count. -/
def sectionEntries (keys : List String) : Value → Option (List (String × Value))
  | .table _ entries => if entries.all (keys.contains ·.1) then some entries else none
  | .array items => some (keys.zip items)
  | .tables items => some (keys.zip (items.reverse.map (.table .header)))
  | _ => none

/-- A section; what is absent keeps the value that `start` has. -/
def readSection {σ : Type} (keys : List String) (set : σ → String → Value → Option σ) (start : σ)
    (v : Value) : Option σ := do
  (← sectionEntries keys v).foldlM (fun state (key, value) => set state key value) start

def Compose.ofName? (name : String) : Option Compose :=
  [Compose.first, .intersection].find? (·.name == name)

def QueryField.ofName? (name : String) : Option QueryField :=
  [QueryField.required, .optionalWhenAllOptional].find? (·.name == name)

def Input.read : Value → Option Input :=
  readSection ["spec"] (fun s key v =>
    match key with
    | "spec" => do return { s with spec := ← text v }
    | _ => none) .default

def Output.read : Value → Option Output :=
  readSection ["dir", "types", "client", "service"] (fun s key v =>
    match key with
    | "dir" => do return { s with dir := ← text v }
    | "types" => do return { s with types := ← text v }
    | "client" => do return { s with client := ← text v }
    | "service" => do return { s with service := ← text v }
    | _ => none) .default

def Client.read : Value → Option Client :=
  readSection ["title", "base_url", "types_import", "service_import"] (fun s key v =>
    match key with
    | "title" => do return { s with title := some (← text v) }
    | "base_url" => do return { s with baseUrl := ← text v }
    | "types_import" => do return { s with typesImport := ← text v }
    | "service_import" => do return { s with serviceImport := ← text v }
    | _ => none) .default

def Generation.read : Value → Option Generation :=
  readSection ["compose", "query_field", "unique_operation_ids", "timestamp"] (fun s key v =>
    match key with
    | "compose" => do return { s with compose := ← choice Compose.ofName? v }
    | "query_field" => do return { s with queryField := ← choice QueryField.ofName? v }
    | "unique_operation_ids" => do return { s with uniqueOperationIds := ← flag v }
    | "timestamp" => do return { s with timestamp := ← flag v }
    | _ => none) .default

/-- The settings in the root table. -/
def ofEntries (entries : Entries) : Option Config :=
  readSection ["input", "output", "client", "generation"] (fun c key v =>
    match key with
    | "input" => do return { c with input := ← Input.read v }
    | "output" => do return { c with output := ← Output.read v }
    | "client" => do return { c with client := ← Client.read v }
    | "generation" => do return { c with generation := ← Generation.read v }
    | _ => none) .default (.table .header entries)

/-- The paths of the generated files with their keys. -/
def outputs (c : Config) : List (String × String) :=
  [("types", c.output.types), ("client", c.output.client), ("service", c.output.service)]

/-- What is wrong with output paths, given those before them: the key in question and a message. -/
def clash (before : List (String × String)) : List (String × String) → Option (String × String)
  | [] => none
  | (key, path) :: rest =>
    match before.find? fun other => Files.samePath other.2 path with
    | some other =>
      some (key, "output." ++ other.1 ++ " and output." ++ key ++ " point to the same file")
    | none => clash (before ++ [(key, path)]) rest

/-- What is wrong with the output paths, if anything: an empty one before two equal ones. -/
def problem (c : Config) : Option (String × String) :=
  match c.outputs.find? (·.2.isEmpty) with
  | some (key, _) => some (key, "output." ++ key ++ " must not be empty")
  | none => clash [] c.outputs

/-- Reads the settings from a source. -/
def ofSource (s : Source) : Except LoadError Config :=
  match (parse s.text).bind ofEntries with
  | none => .error (.settings s.name)
  | some config =>
    match config.problem with
    | none => .ok config
    | some (key, message) => .error (s.contradiction message (some key))

end TypedClient.Config
