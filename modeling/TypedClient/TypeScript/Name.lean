import TypedClient.Text.Words

/-! Names and quoted text in TypeScript: identifiers, string literals, property
keys and accesses, and the type and function names of an operation. -/

namespace TypedClient.TypeScript

open Text

/-- Letters, `_` and `$` may start an identifier. -/
def startsIdentifier (c : Char) : Bool := c.isAlpha || c == '_' || c == '$'

/-- Digits may follow as well. -/
def continuesIdentifier (c : Char) : Bool := c.isAlphanum || c == '_' || c == '$'

def isIdentifierChars : List Char → Bool
  | [] => false
  | c :: rest => startsIdentifier c && rest.all continuesIdentifier

/-- Whether a name can be written bare. Only ASCII names count. -/
def isIdentifier (name : String) : Bool := isIdentifierChars name.toList

/-- A character inside single quotes. -/
def escapeChar : Char → List Char
  | '\\' => ['\\', '\\']
  | '\'' => ['\\', '\'']
  | '\n' => ['\\', 'n']
  | '\r' => ['\\', 'r']
  | c => [c]

/-- The characters of a single-quoted literal. -/
def literalChars (value : List Char) : List Char := '\'' :: (value.flatMap escapeChar ++ ['\''])

/-- A single-quoted string literal. -/
def stringLiteral (value : String) : String := String.ofList (literalChars value.toList)

/-- A property key, quoted when it is no identifier. -/
def propertyKey (name : String) : String :=
  if isIdentifier name then name else stringLiteral name

/-- Access to a member: `params.id`, or `params['x-id']` when the name is no identifier. -/
def propertyAccess (object name : String) : String :=
  if isIdentifier name then object ++ "." ++ name
  else object ++ "[" ++ stringLiteral name ++ "]"

/-- The words that cannot name a function. -/
def reservedWords : List String := [
  "break", "case", "catch", "class", "const", "continue", "debugger", "default", "delete", "do",
  "else", "enum", "export", "extends", "false", "finally", "for", "function", "if", "import",
  "in", "instanceof", "let", "new", "null", "return", "super", "switch", "this", "throw",
  "true", "try", "typeof", "var", "void", "while", "with", "yield",
  "any", "as", "async", "await", "boolean", "constructor", "declare", "get", "implements",
  "interface", "module", "namespace", "never", "number", "object", "package", "private",
  "protected", "public", "readonly", "require", "set", "static", "string", "symbol", "type",
  "undefined", "unknown"]

def isReserved (name : String) : Bool := reservedWords.contains name

/-- A reserved word gets an underscore in front. -/
def safeName (name : String) : String := if isReserved name then "_" ++ name else name

/-- The type name that an operation id stands for: `get_pet` gives `GetPet`. -/
def typeName (operationId : String) : String := safeName (pascalCase operationId)

/-- The function name that an operation id stands for: `GetPet` gives `getPet`. -/
def functionName (operationId : String) : String := safeName (camelCase operationId)

end TypedClient.TypeScript
