/-! Scripts by which a shell completes the names of commands. -/

namespace TypedClient.CommandLine

/-- The name of the program. -/
def programName : String := "apigen"

/-- The commands with what they do. -/
def commandTable : List (String × String) :=
  [("generate", "Generate the types, client, and helper documents"),
    ("check", "Validate the API document without generating code"),
    ("init", "Write a default apigen.toml"),
    ("completions", "Generate shell completions"),
    ("help", "Print this message")]

def commandNames : List String := commandTable.map Prod.fst

inductive Shell
  | bash | elvish | fish | powershell | zsh
  deriving DecidableEq, Repr

namespace Shell

def all : List Shell := [bash, elvish, fish, powershell, zsh]

def name : Shell → String
  | bash => "bash"
  | elvish => "elvish"
  | fish => "fish"
  | powershell => "powershell"
  | zsh => "zsh"

def ofName? (name : String) : Option Shell := all.find? (·.name == name)

/-- The script that a shell reads. -/
def script (shell : Shell) : String :=
  let names := " ".intercalate commandNames
  match shell with
  | bash => "complete -W \"" ++ names ++ "\" " ++ programName
  | elvish => "set edit:completion:arg-completer[" ++ programName ++ r"] = {|@words| put " ++ names ++ r" }"
  | fish => "complete -c " ++ programName ++ " -f -a \"" ++ names ++ "\""
  | powershell =>
    "Register-ArgumentCompleter -Native -CommandName " ++ programName ++
      r" -ScriptBlock { param($word) -split '" ++ names ++ r#"' -like "$word*" }"#
  | zsh => "compdef '_arguments \"1:command:(" ++ names ++ ")\"' " ++ programName

end Shell

/-- What is printed about the use of the program. -/
def usageLines : List String :=
  ["Usage: " ++ programName ++ " [OPTIONS] <COMMAND>", "", "Commands:"] ++
    commandTable.map fun (name, purpose) => "  " ++ name ++ ": " ++ purpose

end TypedClient.CommandLine
