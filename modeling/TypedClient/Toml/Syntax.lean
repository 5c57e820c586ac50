import TypedClient.Toml.Plain
import TypedClient.Toml.Text

/-! The statements of a TOML text: headers of tables, and keys with values. -/

namespace TypedClient.Toml

/-- A value as written; an inline table lists its entries by dotted keys. -/
inductive Expr
  | string (s : String)
  | bool (b : Bool)
  /-- A number, a date or a time. -/
  | plain
  | array (items : List Expr)
  | inlineTable (entries : List (List String × Expr))

instance : Inhabited Expr := ⟨.plain⟩

inductive Statement
  /-- `[key]`. -/
  | table (key : List String)
  /-- `[[key]]`. -/
  | arrayItem (key : List String)
  /-- `key = value`. -/
  | entry (key : List String) (value : Expr)

/-- Spaces, comments and line endings, as far as `fuel` reaches. -/
def skipLinesWithin : Nat → List Char → Option (List Char)
  | 0, _ => none
  | fuel + 1, s => do
    let after ← skipComment (skipSpaces s)
    match lineEnd? after with
    | some rest => skipLinesWithin fuel rest
    | none => return after

/-- The text behind the spaces, comments and line endings that may stand between the parts of an
array or of an inline table. -/
def skipLines (s : List Char) : Option (List Char) := skipLinesWithin (s.length + 1) s

/-- Characters that end a plain value. -/
def endsPlain (c : Char) : Bool :=
  isSpace c || c == '\n' || c == '\r' || c == '#' || c == ',' || c == '=' || c == '[' ||
    c == ']' || c == '{' || c == '}'

/-- The plain value at the front. A date and a time may have one space between them. -/
def plainText (s : List Char) : List Char × List Char :=
  let front := s.takeWhile fun c => !endsPlain c
  let after := s.dropWhile fun c => !endsPlain c
  match date front, after with
  | some [], ' ' :: c :: rest =>
    if c.isDigit then
      (front ++ ' ' :: (c :: rest).takeWhile (fun c => !endsPlain c),
        (c :: rest).dropWhile fun c => !endsPlain c)
    else (front, after)
  | _, _ => (front, after)

/-- A truth value, number, date or time. -/
def plain (s : List Char) : Option (Expr × List Char) :=
  let (front, after) := plainText s
  if front == "true".toList then some (.bool true, after)
  else if front == "false".toList then some (.bool false, after)
  else if isPlainValue front then some (.plain, after)
  else none

mutual

/-- A value, with `depth` brackets left to open. -/
def value (depth : Nat) : Nat → List Char → Option (Expr × List Char)
  | 0, _ => none
  | fuel + 1, s =>
    match string? s, s with
    | some read, _ => read.map fun (text, after) => (.string (String.ofList text), after)
    | none, '[' :: rest => do
      let (items, after) ← if depth = 0 then none else items (depth - 1) fuel rest
      return (.array items, after)
    | none, '{' :: rest => do
      let (entries, after) ← if depth = 0 then none else entries (depth - 1) fuel rest
      return (.inlineTable entries, after)
    | none, _ => plain s

/-- The items of an array and its closing bracket; a comma may stand behind the last one. -/
def items (depth : Nat) : Nat → List Char → Option (List Expr × List Char)
  | 0, _ => none
  | fuel + 1, s => do
    match ← skipLines s with
    | ']' :: rest => return ([], rest)
    | front =>
      let (item, after) ← value depth fuel front
      match ← skipLines after with
      | ',' :: rest =>
        let (others, after) ← items depth fuel rest
        return (item :: others, after)
      | ']' :: rest => return ([item], rest)
      | _ => none

/-- The entries of an inline table and its closing brace; a comma may stand behind the last one. -/
def entries (depth : Nat) : Nat → List Char → Option (List (List String × Expr) × List Char)
  | 0, _ => none
  | fuel + 1, s => do
    match ← skipLines s with
    | '}' :: rest => return ([], rest)
    | front =>
      let (name, after) ← key front
      let (item, after) ← value depth fuel (← skipLines (← expectChar '=' (← skipLines after)))
      match ← skipLines after with
      | ',' :: rest =>
        let (others, after) ← entries depth fuel rest
        return ((name, item) :: others, after)
      | '}' :: rest => return ([(name, item)], rest)
      | _ => none

end

/-- The header of a table or of an item of an array of tables. -/
def header (s : List Char) : Option (Statement × List Char) :=
  match s with
  | '[' :: rest => do
    let (name, after) ← key (skipSpaces rest)
    match skipSpaces after with
    | ']' :: ']' :: after => return (.arrayItem name, after)
    | _ => none
  | _ => do
    let (name, after) ← key (skipSpaces s)
    return (.table name, ← expectChar ']' (skipSpaces after))

/-- The text behind the equals sign of an entry and the spaces around it. -/
def afterEquals (s : List Char) : Option (List Char) :=
  (expectChar '=' (skipSpaces s)).map skipSpaces

/-- The statement at the front. Each step into a value takes a character or follows one that did,
so three steps for each character are enough. -/
def statement (s : List Char) : Option (Statement × List Char) :=
  match s with
  | '[' :: rest => header rest
  | _ => do
    let (name, after) ← key s
    let (item, after) ← value maxDepth (3 * s.length + 3) (← afterEquals after)
    return (.entry name item, after)

/-- The text behind spaces, a comment and the end of the line. -/
def finishLine (s : List Char) : Option (List Char) := do
  let after ← skipComment (skipSpaces s)
  if after.isEmpty then return [] else lineEnd? after

/-- The statements of a text, line by line, as far as `fuel` reaches. -/
def statementsWithin : Nat → List Char → Option (List Statement)
  | 0, _ => none
  | fuel + 1, s =>
    match skipSpaces s with
    | [] => some []
    | c :: rest =>
      if c = '#' || c = '\n' || c = '\r' then do
        statementsWithin fuel (← finishLine (c :: rest))
      else do
        let (first, after) ← statement (c :: rest)
        let others ← statementsWithin fuel (← finishLine after)
        return first :: others

/-- The statements of a text. A byte order mark may stand in front. -/
def statements (s : List Char) : Option (List Statement) :=
  let body := match s with
    | '\uFEFF' :: rest => rest
    | _ => s
  statementsWithin (body.length + 1) body

end TypedClient.Toml
