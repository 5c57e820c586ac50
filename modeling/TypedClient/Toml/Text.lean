/-! The words of TOML: keys, strings and plain values, read from the front of a text.
Every reader gives what it has read and the text behind it, or nothing when the
text is not well formed. -/

namespace TypedClient.Toml

/-- Characters that may stand between the parts of a line. -/
def isSpace (c : Char) : Bool := c == ' ' || c == '\t'

/-- Characters that may stand in comments and strings: all but control characters, tabs excepted. -/
def isPlain (c : Char) : Bool := c == '\t' || (0x20 ≤ c.toNat && c.toNat != 0x7F)

def isBareKey (c : Char) : Bool := c.isAlphanum || c == '_' || c == '-'

def skipSpaces (s : List Char) : List Char := s.dropWhile isSpace

/-- The text behind a line ending. -/
def lineEnd? : List Char → Option (List Char)
  | '\n' :: rest => some rest
  | '\r' :: '\n' :: rest => some rest
  | _ => none

/-- The text behind a comment, if one stands here; it reaches to the end of the line. -/
def skipComment : List Char → Option (List Char)
  | '#' :: rest =>
    let after := rest.dropWhile isPlain
    if after.isEmpty || (lineEnd? after).isSome then some after else none
  | s => some s

/-- The value of a hexadecimal digit. -/
def hexValue (c : Char) : Option Nat :=
  if c.isDigit then some (c.toNat - 48)
  else if 'a' ≤ c && c ≤ 'f' then some (c.toNat - 87)
  else if 'A' ≤ c && c ≤ 'F' then some (c.toNat - 55)
  else none

/-- The character with a number in hexadecimal digits; surrogates and numbers beyond the last
character are refused. -/
def hexChar (digits : List Char) : Option Char := do
  let n ← digits.foldlM (fun n c => do return n * 16 + (← hexValue c)) 0
  if n < 0xD800 || (0xE000 ≤ n && n < 0x110000) then some (Char.ofNat n) else none

/-- The character that a letter behind a backslash stands for. -/
def escaped (c : Char) : Option Char :=
  match c with
  | '"' => some '"'
  | '\\' => some '\\'
  | 'b' => some '\x08'
  | 'e' => some '\x1b'
  | 'f' => some '\x0c'
  | 'n' => some '\n'
  | 'r' => some '\r'
  | 't' => some '\t'
  | _ => none

/-- Puts characters in front of what is read. -/
def prepend (front : List Char) (r : Option (List Char × List Char)) :
    Option (List Char × List Char) :=
  r.map fun (s, rest) => (front ++ s, rest)

/-- A string in double quotes, from behind the opening quote. -/
def basicString : List Char → Option (List Char × List Char)
  | [] => none
  | '"' :: rest => some ([], rest)
  | '\\' :: 'x' :: a :: b :: rest => do
    let char ← hexChar [a, b]
    prepend [char] (basicString rest)
  | '\\' :: 'u' :: a :: b :: c :: d :: rest => do
    let char ← hexChar [a, b, c, d]
    prepend [char] (basicString rest)
  | '\\' :: 'U' :: a :: b :: c :: d :: e :: f :: g :: h :: rest => do
    let char ← hexChar [a, b, c, d, e, f, g, h]
    prepend [char] (basicString rest)
  | '\\' :: c :: rest => do
    let char ← escaped c
    prepend [char] (basicString rest)
  | c :: rest => if isPlain c then prepend [c] (basicString rest) else none

/-- A string in single quotes, from behind the opening quote. -/
def literalString : List Char → Option (List Char × List Char)
  | [] => none
  | '\'' :: rest => some ([], rest)
  | c :: rest => if isPlain c then prepend [c] (literalString rest) else none

/-- The end of a string over several lines, from behind its closing quotes: up to two more quotes
still belong to it. -/
def closingQuotes (quote : Char) : List Char → List Char × List Char
  | [] => ([], [])
  | a :: rest =>
    if a ≠ quote then ([], a :: rest)
    else
      match rest with
      | [] => ([quote], [])
      | b :: more => if b = quote then ([quote, quote], more) else ([quote], b :: more)

/-- Whether only spaces stand before the end of the line. -/
def endsLine (s : List Char) : Bool := (lineEnd? (skipSpaces s)).isSome

/-- A string in three double quotes, from behind the line ending that may follow them. While
`skipping`, spaces and line endings behind a backslash at the end of a line are left out. -/
def multilineBasic (skipping : Bool) : List Char → Option (List Char × List Char)
  | [] => none
  | '"' :: '"' :: '"' :: rest => some (closingQuotes '"' rest)
  | '\\' :: 'x' :: a :: b :: rest => do
    let char ← hexChar [a, b]
    prepend [char] (multilineBasic false rest)
  | '\\' :: 'u' :: a :: b :: c :: d :: rest => do
    let char ← hexChar [a, b, c, d]
    prepend [char] (multilineBasic false rest)
  | '\\' :: 'U' :: a :: b :: c :: d :: e :: f :: g :: h :: rest => do
    let char ← hexChar [a, b, c, d, e, f, g, h]
    prepend [char] (multilineBasic false rest)
  | '\\' :: c :: rest =>
    if endsLine (c :: rest) then multilineBasic true (c :: rest)
    else do
      let char ← escaped c
      prepend [char] (multilineBasic false rest)
  | '\r' :: '\n' :: rest =>
    if skipping then multilineBasic true rest
    else prepend ['\r', '\n'] (multilineBasic false rest)
  | c :: rest =>
    if skipping && (isSpace c || c == '\n') then multilineBasic true rest
    else if isPlain c || c == '\n' then prepend [c] (multilineBasic false rest)
    else none

/-- A string in three single quotes, from behind the line ending that may follow them. -/
def multilineLiteral : List Char → Option (List Char × List Char)
  | [] => none
  | '\'' :: '\'' :: '\'' :: rest => some (closingQuotes '\'' rest)
  | '\r' :: '\n' :: rest => prepend ['\r', '\n'] (multilineLiteral rest)
  | c :: rest =>
    if isPlain c || c == '\n' then prepend [c] (multilineLiteral rest) else none

/-- The text behind a line ending that may stand here. -/
def skipLineEnd (s : List Char) : List Char := (lineEnd? s).getD s

/-- A string of any kind, if a quote stands here. -/
def string? : List Char → Option (Option (List Char × List Char))
  | '"' :: '"' :: '"' :: rest => some (multilineBasic false (skipLineEnd rest))
  | '"' :: rest => some (basicString rest)
  | '\'' :: '\'' :: '\'' :: rest => some (multilineLiteral (skipLineEnd rest))
  | '\'' :: rest => some (literalString rest)
  | _ => none

/-- A bare or quoted part of a key. -/
def simpleKey : List Char → Option (String × List Char)
  | '"' :: rest => (basicString rest).map fun (s, after) => (String.ofList s, after)
  | '\'' :: rest => (literalString rest).map fun (s, after) => (String.ofList s, after)
  | s =>
    let name := s.takeWhile isBareKey
    if name.isEmpty then none else some (String.ofList name, s.dropWhile isBareKey)

/-- The parts of a dotted key behind its first, as far as `fuel` reaches. -/
def moreKeys : Nat → List Char → Option (List String × List Char)
  | 0, _ => none
  | fuel + 1, s =>
    match skipSpaces s with
    | '.' :: rest => do
      let (name, after) ← simpleKey (skipSpaces rest)
      let (names, after) ← moreKeys fuel after
      return (name :: names, after)
    | after => some ([], after)

/-- How deeply arrays and inline tables may nest, and how many parts a key may have. -/
def maxDepth : Nat := 80

/-- A key: its parts between dots, and the text behind it and the spaces that follow. -/
def key (s : List Char) : Option (List String × List Char) := do
  let (name, after) ← simpleKey s
  let (names, after) ← moreKeys (after.length + 1) after
  if names.length < maxDepth then return (name :: names, after) else none

end TypedClient.Toml
