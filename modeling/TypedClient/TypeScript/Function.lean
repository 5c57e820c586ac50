import TypedClient.Code.Buffer
import TypedClient.TypeScript.Name

/-! Values: object literals, constants and arrow functions. -/

namespace TypedClient.TypeScript

open Code

/-- An entry of an object literal. -/
inductive Entry
  /-- A key with a quoted string. -/
  | text (key value : String)
  /-- A key with an expression as it is. -/
  | expr (key value : String)
  /-- A variable under its own name. -/
  | shorthand (name : String)

def Entry.line : Entry → String
  | .text key value => propertyKey key ++ ": " ++ stringLiteral value
  | .expr key value => propertyKey key ++ ": " ++ value
  | .shorthand name => name

/-- Entries one per line, with a comma after each but the last. -/
def entryFragments : List Entry → List Fragment
  | [] => []
  | [entry] => [.line entry.line]
  | entry :: rest => .line (entry.line ++ ",") :: entryFragments rest

/-- An object literal over several lines; without entries it is bare braces. -/
def objectFragments (entries : List Entry) : List Fragment :=
  [if entries.isEmpty then .raw "{}" else .block r"{" (entryFragments entries) (some r"}")]

/-- A constant with a value as it is. -/
structure Constant where
  name : String
  value : String
  exported : Bool

def Constant.fragments (c : Constant) : List Fragment :=
  [.line ((if c.exported then "export " else "") ++ "const " ++ c.name ++ " = " ++ c.value)]

/-- A parameter of a function, with its type and its default value if there are any. -/
structure Param where
  name : String
  type : Option String
  default : Option String

def Param.text (p : Param) : String :=
  p.name ++ (match p.type with | none => "" | some type => ": " ++ type) ++
    (match p.default with | none => "" | some value => " = " ++ value)

/-- An arrow function bound to a constant. -/
structure Function where
  name : String
  comments : List String
  params : List Param
  returns : Option String
  isAsync : Bool
  exported : Bool
  body : List Fragment

namespace Function

/-- The line that opens the function. -/
def header (f : Function) : String :=
  (if f.exported then "export " else "") ++ "const " ++ f.name ++ " = " ++
    (if f.isAsync then "async " else "") ++ "(" ++ ", ".intercalate (f.params.map Param.text) ++ ")" ++
    (match f.returns with | none => "" | some type => ": " ++ type) ++ r" => {"

def fragments (f : Function) : List Fragment :=
  Fragment.comments f.comments ++ [.block f.header f.body (some r"}")]

end Function

end TypedClient.TypeScript
