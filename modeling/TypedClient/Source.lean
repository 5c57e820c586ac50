import TypedClient.Json.Decode

/-! Texts under the names they are reported by, and the errors that point into them.
Positions count bytes of UTF-8. -/

namespace TypedClient

/-- A text and the name of where it comes from. -/
structure Source where
  name : String
  text : String

/-- A stretch of a text, in bytes. -/
structure Span where
  offset : Nat
  length : Nat
  deriving DecidableEq

/-- The bytes before the first occurrence of `needle`. -/
def findBytes (needle : List Char) : List Char → Option Nat
  | [] => if needle.isEmpty then some 0 else none
  | c :: rest =>
    if needle.isPrefixOf (c :: rest) then some 0
    else (findBytes needle rest).map (c.utf8Size + ·)

/-- The bytes of the first `count` lines, their line feeds included. -/
def lineBytes : Nat → List Char → Nat
  | _, [] => 0
  | 0, _ => 0
  | count + 1, c :: rest =>
    c.utf8Size + if c = '\n' then lineBytes count rest else lineBytes (count + 1) rest

namespace Source

/-- The first occurrence of a text. -/
def find (s : Source) (needle : String) : Option Span :=
  (findBytes needle.toList s.text.toList).map fun offset => ⟨offset, needle.utf8ByteSize⟩

/-- The byte at a line and a column, both counted from one; none for line zero. A position behind
the end is moved to the last byte. -/
def position (s : Source) (line column : Nat) : Option Span :=
  if line = 0 then none
  else
    let offset := lineBytes (line - 1) s.text.toList + (column - 1)
    some ⟨min offset (s.text.utf8ByteSize - 1), 1⟩

end Source

/-- Why a document or the settings cannot be used. -/
inductive LoadError
  /-- A file cannot be read as text. -/
  | unreadable (path : String)
  /-- A document is not JSON. -/
  | malformed (file : String)
  /-- A document does not have the structure it should have. -/
  | mismatched (file : String)
  /-- The settings are not TOML, or have another structure. -/
  | settings (file : String)
  /-- Settings contradict each other. -/
  | invalid (file message : String) (span : Option Span)

namespace LoadError

/-- The name of the kind of error. -/
def kind : LoadError → String
  | unreadable _ => "Io"
  | malformed _ => "Parse"
  | mismatched _ => "InvalidDocument"
  | settings _ => "ConfigParse"
  | invalid .. => "Validation"

def message : LoadError → String
  | unreadable path => "failed to read '" ++ path ++ "'"
  | malformed _ => "API document is not valid JSON"
  | mismatched _ => "API document does not match the expected structure"
  | settings _ => "failed to parse apigen.toml"
  | invalid _ message _ => message

/-- The code under which the error is documented. -/
def code : LoadError → String
  | unreadable _ => "apigen::io"
  | malformed _ => "apigen::parse_error"
  | mismatched _ => "apigen::invalid_document"
  | settings _ => "apigen::config_parse_error"
  | invalid .. => "apigen::validation_error"

/-- What may help, if anything is known to. -/
def help : LoadError → Option String
  | unreadable _ => some "check the --spec flag or the [input] section of apigen.toml"
  | mismatched _ => some "paths, components.schemas and their children must be JSON objects"
  | _ => none

/-- The file that the error is in; a file that cannot be read is named in the message. -/
def file : LoadError → Option String
  | unreadable _ => none
  | malformed file => some file
  | mismatched file => some file
  | settings file => some file
  | invalid file _ _ => some file

def span : LoadError → Option Span
  | invalid _ _ span => span
  | _ => none

/-- The error that a fault of a document stands for. -/
def ofFault (file : String) : Json.Fault → LoadError
  | .malformed => malformed file
  | .mismatched => mismatched file

end LoadError

/-- The error that a source contradicts itself, pointing at the first occurrence of a text. -/
def Source.contradiction (s : Source) (message : String) (needle : Option String) : LoadError :=
  .invalid s.name message (needle.bind s.find)

end TypedClient
