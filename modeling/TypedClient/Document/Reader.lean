import TypedClient.Document.Basic
import TypedClient.Json.Decode

/-! Reading a document from JSON. Unknown keys are skipped; only a value of the
wrong kind, or a key given twice where keys are fixed, is refused. -/

namespace TypedClient.Document

open Json Tree Route

/-- The `type` of a schema: any value is read first, then it must be a string or a list of
strings. -/
def TypeName.ofTree (room : Nat) (t : Tree) : Decoded TypeName := do
  match ← value? room t with
  | .string name => return .single name
  | .array items =>
    let names ← items.mapM fun item =>
      match item with
      | .string name => .ok name
      | _ => .error .mismatched
    return .several names
  | _ => throw .mismatched

def Schema.keys : List String :=
  ["$ref", "type", "enum", "format", "description", "items", "properties", "required", "allOf",
    "oneOf", "anyOf"]

/-- Sets a key of a schema; `nested` reads the schemas one bracket further in. -/
def Schema.set (nested : Nat → Tree → Decoded Schema) (room : Nat) (s : Schema) (key : String)
    (t : Tree) : Decoded Schema :=
  match key with
  | "$ref" => do return { s with reference := ← optional text? t }
  | "type" => do return { s with type := ← optional (TypeName.ofTree room) t }
  | "enum" => do return { s with literals := ← optional (list value? room) t }
  | "format" => do return { s with format := ← optional text? t }
  | "description" => do return { s with description := ← optional text? t }
  | "items" => do return { s with items := ← optional (nested room) t }
  | "properties" => do return { s with properties := ← optional (entries nested room) t }
  | "required" => do return { s with required := ← orDefault [] (list (fun _ => text?) room) t }
  | "allOf" => do return { s with allOf := ← optional (list nested room) t }
  | "oneOf" => do return { s with oneOf := ← optional (list nested room) t }
  | "anyOf" => do return { s with anyOf := ← optional (list nested room) t }
  | _ => return s

/-- A schema, its nested schemas read by `fuel` further steps. -/
def Schema.within : Nat → Nat → Tree → Decoded Schema
  | 0, room, t => record Schema.keys (Schema.set fun _ _ => .error .malformed) .empty room t
  | fuel + 1, room, t => record Schema.keys (Schema.set (Schema.within fuel)) .empty room t

/-- A schema. Every step into a nested schema opens a bracket, so the room is enough. -/
def Schema.ofTree (room : Nat) (t : Tree) : Decoded Schema := Schema.within room room t

/-- The place of a parameter by its name; an unknown name is some other place. -/
def Place.ofName (name : String) : Place :=
  match name with
  | "path" => .path
  | "query" => .query
  | "header" => .header
  | "cookie" => .cookie
  | _ => .other

/-- The place of a parameter: its name, or an object with that name as its only key and `null`
behind it. -/
def Place.ofTree (room : Nat) : Tree → Decoded Place
  | .string (some name) => .ok (.ofName (String.ofList name))
  | .object entries closed =>
    match room, entries, closed with
    | 0, _, _ => .error .malformed
    | _, [(some name, .null)], true => .ok (.ofName (String.ofList name))
    | _, (some _, .null) :: _, _ => .error .malformed
    | _, (some _, t) :: _, _ => .error t.wrongKind
    | _, _, _ => .error .malformed
  | _ => .error .malformed

def Parameter.keys : List String := ["$ref", "name", "in", "required", "description", "schema"]

def Parameter.empty : Parameter := ⟨none, none, none, false, none, none⟩

def Parameter.set (room : Nat) (p : Parameter) (key : String) (t : Tree) : Decoded Parameter :=
  match key with
  | "$ref" => do return { p with reference := ← optional text? t }
  | "name" => do return { p with name := ← optional text? t }
  | "in" => do return { p with place := ← optional (Place.ofTree room) t }
  | "required" => do return { p with required := ← orDefault false bool? t }
  | "description" => do return { p with description := ← optional text? t }
  | "schema" => do return { p with schema := ← optional (Schema.ofTree room) t }
  | _ => return p

def Parameter.ofTree : Nat → Tree → Decoded Parameter := record Parameter.keys Parameter.set .empty

def MediaType.ofTree : Nat → Tree → Decoded MediaType :=
  record ["schema"] (fun room m key t =>
    match key with
    | "schema" => do return { m with schema := ← optional (Schema.ofTree room) t }
    | _ => return m) ⟨none⟩

def RequestBody.ofTree : Nat → Tree → Decoded RequestBody :=
  record ["description", "required", "content"] (fun room b key t =>
    match key with
    | "description" => do return { b with description := ← optional text? t }
    | "required" => do return { b with required := ← orDefault false bool? t }
    | "content" => do return { b with content := ← entries MediaType.ofTree room t }
    | _ => return b) ⟨none, false, []⟩

def Response.ofTree : Nat → Tree → Decoded Response :=
  record ["description", "content"] (fun room r key t =>
    match key with
    | "description" => do return { r with description := ← optional text? t }
    | "content" => do return { r with content := ← entries MediaType.ofTree room t }
    | _ => return r) ⟨none, []⟩

def Operation.keys : List String :=
  ["operationId", "summary", "description", "parameters", "requestBody", "responses"]

def Operation.empty : Operation := ⟨none, none, none, [], none, []⟩

def Operation.set (room : Nat) (o : Operation) (key : String) (t : Tree) : Decoded Operation :=
  match key with
  | "operationId" => do return { o with operationId := ← optional text? t }
  | "summary" => do return { o with summary := ← optional text? t }
  | "description" => do return { o with description := ← optional text? t }
  | "parameters" => do return { o with parameters := ← orDefault [] (list Parameter.ofTree room) t }
  | "requestBody" => do return { o with requestBody := ← optional (RequestBody.ofTree room) t }
  | "responses" => do return { o with responses := ← entries Response.ofTree room t }
  | _ => return o

def Operation.ofTree : Nat → Tree → Decoded Operation := record Operation.keys Operation.set .empty

/-- Adds a key of a path item: `parameters` replaces the shared parameters, a method adds an
operation however often it comes, and any other key is noted and its value skipped. -/
def PathItem.add (room : Nat) (item : PathItem) (key : String) (t : Tree) : Decoded PathItem :=
  if key = "parameters" then do return { item with parameters := ← list Parameter.ofTree room t }
  else
    match Method.ofKey? key with
    | some method => do
      let op ← Operation.ofTree room t
      return { item with operations := item.operations ++ [(method, op)] }
    | none => return { item with ignoredKeys := item.ignoredKeys ++ [key] }

/-- A path item; it must be an object. -/
def PathItem.ofTree (room : Nat) : Tree → Decoded PathItem
  | .object entries closed =>
    match room with
    | 0 => .error .malformed
    | inner + 1 => foldEntries (PathItem.add inner) ⟨[], [], []⟩ entries closed
  | t => .error t.wrongKind

def Info.ofTree : Nat → Tree → Decoded Info :=
  record ["title", "version", "description"] (fun _ i key t =>
    match key with
    | "title" => do return { i with title := ← optional text? t }
    | "version" => do return { i with version := ← optional text? t }
    | "description" => do return { i with description := ← optional text? t }
    | _ => return i) ⟨none, none, none⟩

def Components.ofTree : Nat → Tree → Decoded Components :=
  record ["schemas", "parameters"] (fun room c key t =>
    match key with
    | "schemas" => do return c.withSchemas (← entries Schema.ofTree room t)
    | "parameters" => do return { c with parameters := ← entries Parameter.ofTree room t }
    | _ => return c) .empty

/-- A whole document. -/
def ofTree : Nat → Tree → Decoded Document :=
  record ["openapi", "swagger", "info", "paths", "components"] (fun room d key t =>
    match key with
    | "openapi" => do return { d with openapi := ← optional text? t }
    | "swagger" => do return { d with swagger := ← optional text? t }
    | "info" => do return { d with info := ← Info.ofTree room t }
    | "paths" => do return { d with paths := ← entries PathItem.ofTree room t }
    | "components" => do return { d with components := ← Components.ofTree room t }
    | _ => return d) .empty

/-- Reads a document from its text. -/
def ofText (s : String) : Decoded Document := decode ofTree s

end TypedClient.Document
