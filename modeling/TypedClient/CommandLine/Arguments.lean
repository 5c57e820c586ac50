/-! Switches and arguments on a command line. A value follows its switch as the next
word, behind an equals sign, or directly behind a short letter; switches of one
letter may be joined; two dashes end the switches. A switch comes at most once
unless it is one that counts. -/

namespace TypedClient.CommandLine

/-- What a switch does. -/
inductive Effect
  /-- Takes a value; `emptyAllowed` tells whether an empty one will do. -/
  | value (emptyAllowed : Bool)
  | flag
  /-- May be repeated. -/
  | count
  | help
  | version
  deriving DecidableEq

/-- A switch by its long name and its letter, if it has one. -/
structure Switch where
  name : String
  letter : Option Char
  effect : Effect

/-- Why a command line is not carried out. -/
inductive Stop
  | usage | help | version
  deriving DecidableEq

/-- The words that a command accepts. -/
structure Grammar where
  switches : List Switch
  /-- What each word that stands alone must satisfy, in order; no further one is accepted. -/
  positionals : List (String → Bool)

/-- What was found: switches with their values, and the words that stand alone. -/
structure Matches where
  switches : List (String × String)
  words : List String

namespace Matches

def empty : Matches := ⟨[], []⟩

/-- The value of a switch. -/
def value? (m : Matches) (name : String) : Option String := m.switches.lookup name

def has (m : Matches) (name : String) : Bool := (m.value? name).isSome

/-- Notes a switch, which must not have come before. -/
def setOnce (m : Matches) (name value : String) : Except Stop Matches :=
  if m.has name then .error .usage else .ok { m with switches := m.switches ++ [(name, value)] }

/-- Notes the value of a switch. -/
def setValue (m : Matches) (switch : Switch) (value : String) : Except Stop Matches :=
  match switch.effect with
  | .value emptyAllowed =>
    if value.isEmpty && !emptyAllowed then .error .usage else m.setOnce switch.name value
  | _ => .error .usage

/-- Notes a switch that takes no value. -/
def setFlag (m : Matches) (switch : Switch) : Except Stop Matches :=
  match switch.effect with
  | .flag => m.setOnce switch.name ""
  | .count => .ok m
  | .help => .error .help
  | .version => .error .version
  | .value _ => .error .usage

end Matches

/-- The matches so far, and the switch that still waits for its value. -/
abbrev Progress := Matches × Option Switch

/-- Joined letters. What stands behind a letter that takes a value is that value. -/
def letters (g : Grammar) (m : Matches) : List Char → Except Stop Progress
  | [] => .ok (m, none)
  | c :: rest =>
    match g.switches.find? (·.letter == some c) with
    | none => .error .usage
    | some switch =>
      match switch.effect, rest with
      | .value _, [] => .ok (m, some switch)
      | .value _, '=' :: value => do
        return (← m.setValue switch (String.ofList value), none)
      | .value _, value => do return (← m.setValue switch (String.ofList value), none)
      | _, _ => do letters g (← m.setFlag switch) rest

/-- A long name, with a value when an equals sign follows. -/
def long (g : Grammar) (m : Matches) (word : List Char) : Except Stop Progress :=
  let name := String.ofList (word.takeWhile (· != '='))
  match g.switches.find? (·.name == name) with
  | none => .error .usage
  | some switch =>
    match word.dropWhile (· != '='), switch.effect with
    | _ :: value, _ => do return (← m.setValue switch (String.ofList value), none)
    | [], .value _ => .ok (m, some switch)
    | [], _ => do return (← m.setFlag switch, none)

/-- A word that stands alone. -/
def positional (g : Grammar) (m : Matches) (word : String) : Except Stop Matches :=
  match g.positionals[m.words.length]? with
  | some accepts => if accepts word then .ok { m with words := m.words ++ [word] } else .error .usage
  | none => .error .usage

/-- How a word begins. -/
inductive Form
  | dashes
  | long (name : List Char)
  | letters (cs : List Char)
  | plain

def Form.ofWord (word : String) : Form :=
  match word.toList with
  | ['-', '-'] => .dashes
  | '-' :: '-' :: name => .long name
  | '-' :: c :: rest => .letters (c :: rest)
  | _ => .plain

/-- Reads words. A word that stands alone is looked up among the commands first; `some` of a
command ends the reading and leaves the words behind it. -/
def read (g : Grammar) (commands : List String) :
    Progress → List String → Except Stop (Matches × Option (String × List String))
  | (m, none), [] => .ok (m, none)
  | (_, some _), [] => .error .usage
  | (m, waiting), word :: rest =>
    match Form.ofWord word, waiting with
    | .plain, some switch => do read g commands (← m.setValue switch word, none) rest
    | .plain, none => do
      if commands.contains word then return (m, some (word, rest))
      else read g commands (← positional g m word, none) rest
    | _, some _ => .error .usage
    | .dashes, none => do return (← rest.foldlM (positional g) m, none)
    | .long name, none => do read g commands (← long g m name) rest
    | .letters cs, none => do read g commands (← letters g m cs) rest

end TypedClient.CommandLine
