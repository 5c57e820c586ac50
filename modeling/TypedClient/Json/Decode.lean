import TypedClient.Json.Numeral
import TypedClient.Json.Tree

/-! Interpreting a syntax tree, from front to back. The first problem met decides:
either the text is malformed there, or a value is of the wrong kind. Brackets that
are looked into may nest up to a limit; a value that is skipped may nest freely and
may hold unreadable strings and numbers. -/

namespace TypedClient.Json

/-- Why a text is refused. -/
inductive Fault
  /-- The text is not JSON, holds an unreadable value, or nests too deeply. -/
  | malformed
  /-- A value is of the wrong kind. -/
  | mismatched
  deriving DecidableEq, Repr

abbrev Decoded (α : Type) := Except Fault α

/-- How many brackets may be open at once. -/
def maxDepth : Nat := 127

namespace Tree

/-- The fault of a value of the wrong kind. A string or number is read before its kind is
objected to. -/
def wrongKind : Tree → Fault
  | .missing => .malformed
  | .number n => if n.value?.isNone then .malformed else .mismatched
  | .string none => .malformed
  | _ => .mismatched

/-- A string. -/
def text? : Tree → Decoded String
  | .string (some s) => .ok (String.ofList s)
  | t => .error t.wrongKind

/-- A truth value. -/
def bool? : Tree → Decoded Bool
  | .bool b => .ok b
  | t => .error t.wrongKind

/-- `null`, or a value. -/
def optional {α : Type} (read : Tree → Decoded α) : Tree → Decoded (Option α)
  | .null => .ok none
  | t => (read t).map some

/-- `null` for a default, or a value. -/
def orDefault {α : Type} (default : α) (read : Tree → Decoded α) : Tree → Decoded α
  | .null => .ok default
  | t => read t

/-- A key as it is read. -/
def key? : Text → Decoded String
  | some s => .ok (String.ofList s)
  | none => .error .malformed

/-- An array, each item read with the room that is left inside. -/
def list {α : Type} (read : Nat → Tree → Decoded α) (room : Nat) : Tree → Decoded (List α)
  | .array items closed =>
    match room with
    | 0 => .error .malformed
    | inner + 1 => do
      let values ← items.mapM (read inner)
      if closed then return values else throw .malformed
  | t => .error t.wrongKind

/-- The entries of an object, given one after the other to `step`. -/
def foldEntries {σ : Type} (step : σ → String → Tree → Decoded σ) (start : σ)
    (entries : List (Text × Tree)) (closed : Bool) : Decoded σ := do
  let final ← entries.foldlM (fun state (key, value) => do step state (← key? key) value) start
  if closed then return final else throw .malformed

/-- An object as a map: a repeated key keeps its place and takes the last value. -/
def entries {α : Type} (read : Nat → Tree → Decoded α) (room : Nat) :
    Tree → Decoded (List (String × α))
  | .object entries closed =>
    match room with
    | 0 => .error .malformed
    | inner + 1 =>
      foldEntries (fun map key value => do return setEntry key (← read inner value) map) []
        entries closed
  | t => .error t.wrongKind

/-- A structure with the given keys: an object in which other keys are skipped and no known key
comes twice, or an array of the values in the order of the keys. What is absent keeps the value
that `start` has. -/
def record {σ : Type} (keys : List String) (set : Nat → σ → String → Tree → Decoded σ) (start : σ)
    (room : Nat) : Tree → Decoded σ
  | .object entries closed =>
    match room with
    | 0 => .error .malformed
    | inner + 1 => do
      let step := fun (state : σ × List String) (key : String) (value : Tree) =>
        if !keys.contains key then .ok state
        else if state.2.contains key then .error .mismatched
        else do return (← set inner state.1 key value, key :: state.2)
      return (← foldEntries step (start, []) entries closed).1
  | .array items closed =>
    match room with
    | 0 => .error .malformed
    | inner + 1 => do
      let final ← (keys.zip items).foldlM (fun state (key, value) => set inner state key value) start
      if closed && items.length ≤ keys.length then return final else throw .malformed
  | t => .error t.wrongKind

mutual

/-- Any value. -/
def value? (room : Nat) : Tree → Decoded Value
  | .missing => .error .malformed
  | .null => .ok .null
  | .bool b => .ok (.bool b)
  | .number n =>
    match n.value? with
    | some value => .ok (.number value)
    | none => .error .malformed
  | .string s => (key? s).map .string
  | .array items closed =>
    if room = 0 then .error .malformed
    else do
      let values ← values? (room - 1) items
      if closed then return .array values else throw .malformed
  | .object entries closed =>
    if room = 0 then .error .malformed
    else do
      let pairs ← pairs? (room - 1) entries
      if closed then return .object (mergeEntries pairs) else throw .malformed

/-- The items of an array. -/
def values? (room : Nat) : List Tree → Decoded (List Value)
  | [] => .ok []
  | item :: rest => do return (← value? room item) :: (← values? room rest)

/-- The entries of an object. -/
def pairs? (room : Nat) : List (Text × Tree) → Decoded (List (String × Value))
  | [] => .ok []
  | (key, item) :: rest => do
    let name ← key? key
    let value ← value? room item
    return (name, value) :: (← pairs? room rest)

end

end Tree

/-- Interprets a whole text. -/
def decode {α : Type} (read : Nat → Tree → Decoded α) (s : String) : Decoded α := do
  let reading := Reading.ofText s
  let value ← read maxDepth reading.tree
  if reading.whole then return value else throw .malformed

end TypedClient.Json
