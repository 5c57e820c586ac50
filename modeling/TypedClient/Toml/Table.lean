import TypedClient.Toml.Syntax

/-! The tables that statements build. A table may be opened once by a header; dotted
keys build tables of their own, which only dotted keys extend; an inline table is
complete as written. -/

namespace TypedClient.Toml

/-- What made a table. -/
inductive Origin
  /-- A header of a table inside it. -/
  | implied
  | header
  | dotted
  | inline
  deriving DecidableEq

inductive Value
  | string (s : String)
  | bool (b : Bool)
  /-- A number, a date or a time. -/
  | plain
  | array (items : List Value)
  /-- Tables under one `[[key]]`, last first. -/
  | tables (items : List (List (String × Value)))
  | table (origin : Origin) (entries : List (String × Value))

instance : Inhabited Value := ⟨.plain⟩

abbrev Entries := List (String × Value)

/-- Replaces the value of a key that is present, or adds the key. -/
def put (key : String) (value : Value) : Entries → Entries
  | [] => [(key, value)]
  | (k, v) :: rest => if k = key then (k, value) :: rest else (k, v) :: put key value rest

/-- Changes the table below a path of headers: missing tables are implied, and of an array of
tables the last item is meant. -/
def within (change : Entries → Option Entries) : List String → Entries → Option Entries
  | [], entries => change entries
  | name :: path, entries =>
    match entries.lookup name with
    | none => do return put name (.table .implied (← within change path [])) entries
    | some (.table .inline _) => none
    | some (.table origin inner) => do
      return put name (.table origin (← within change path inner)) entries
    | some (.tables (last :: others)) => do
      return put name (.tables ((← within change path last) :: others)) entries
    | some _ => none

/-- Sets a dotted key. The tables on its way are made by dotted keys only. -/
def assign (value : Value) : List String → Entries → Option Entries
  | [], _ => none
  | [name], entries =>
    if (entries.lookup name).isSome then none else some (put name value entries)
  | name :: path, entries =>
    match entries.lookup name with
    | none => do return put name (.table .dotted (← assign value path [])) entries
    | some (.table .dotted inner) => do
      return put name (.table .dotted (← assign value path inner)) entries
    | some _ => none

/-- Opens a table by its header. -/
def openTable (name : String) (entries : Entries) : Option Entries :=
  match entries.lookup name with
  | none => some (put name (.table .header []) entries)
  | some (.table .implied inner) => some (put name (.table .header inner) entries)
  | some _ => none

/-- Adds an empty table to an array of tables. -/
def openItem (name : String) (entries : Entries) : Option Entries :=
  match entries.lookup name with
  | none => some (put name (.tables [[]]) entries)
  | some (.tables items) => some (put name (.tables ([] :: items)) entries)
  | some _ => none

mutual

/-- The value of an expression. -/
def Expr.value : Expr → Option Value
  | .string s => some (.string s)
  | .bool b => some (.bool b)
  | .plain => some .plain
  | .array items => do return .array (← itemValues items)
  | .inlineTable entries => do return .table .inline (← entryValues entries [])

def itemValues : List Expr → Option (List Value)
  | [] => some []
  | item :: rest => do return (← item.value) :: (← itemValues rest)

/-- The entries of an inline table, set one after the other. -/
def entryValues : List (List String × Expr) → Entries → Option Entries
  | [], done => some done
  | (key, expr) :: rest, done => do entryValues rest (← assign (← expr.value) key done)

end

/-- The tables so far, and the path of the table that is open. -/
structure State where
  root : Entries
  path : List String

/-- Applies a statement. -/
def State.add (state : State) : Statement → Option State
  | .entry key expr => do
    let value ← expr.value
    return { state with root := ← within (assign value key) state.path state.root }
  | .table key => do
    let name ← key.getLast?
    return ⟨← within (openTable name) key.dropLast state.root, key⟩
  | .arrayItem key => do
    let name ← key.getLast?
    return ⟨← within (openItem name) key.dropLast state.root, key⟩

/-- The root table of a text, if the text is well formed. -/
def parse (s : String) : Option Entries := do
  let final ← (← statements s.toList).foldlM State.add ⟨[], []⟩
  return final.root

end TypedClient.Toml
