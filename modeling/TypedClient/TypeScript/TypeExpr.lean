import TypedClient.TypeScript.Name

/-! The texts of type expressions. Each shape is spelled from the texts of its
parts; an array puts its item into parentheses when an operator of the item would
otherwise bind less tightly than the brackets. -/

namespace TypedClient.TypeScript.TypeExpr

/-- The type of what is absent or not supported. -/
def unknown : String := "any"

/-- An object without declared properties. -/
def openMap : String := "Record<string, any>"

/-- The alternatives between the string literals, in order. -/
def union (values : List String) : String :=
  if values.isEmpty then "never" else " | ".intercalate (values.map stringLiteral)

theorem union_cons (value : String) (rest : List String) :
    union (value :: rest) = " | ".intercalate ((value :: rest).map stringLiteral) := by
  rw [union, List.isEmpty_cons, if_neg Bool.false_ne_true]

def intersection (parts : List String) : String := " & ".intercalate parts

/-- Where a scan of a type expression stands: in code at a bracket depth, inside a string
literal, or behind a backslash inside one. -/
inductive Place
  | code (depth : Nat)
  | quoted (depth : Nat)
  | escaped (depth : Nat)

/-- Whether `|` or `&` occurs outside all brackets and string literals. -/
def hasOperator : Place → List Char → Bool
  | _, [] => false
  | .escaped depth, _ :: rest => hasOperator (.quoted depth) rest
  | .quoted depth, c :: rest =>
    if c = '\\' then hasOperator (.escaped depth) rest
    else if c = '\'' then hasOperator (.code depth) rest
    else hasOperator (.quoted depth) rest
  | .code depth, c :: rest =>
    if c = '\'' then hasOperator (.quoted depth) rest
    else if c = '{' || c = '(' || c = '[' || c = '<' then hasOperator (.code (depth + 1)) rest
    else if c = '}' || c = ')' || c = ']' || c = '>' then hasOperator (.code (depth - 1)) rest
    else if (c = '|' || c = '&') && depth = 0 then true
    else hasOperator (.code depth) rest

/-- An array of items of the given type. -/
def array (item : String) : String :=
  if hasOperator (.code 0) item.toList then "(" ++ item ++ ")[]" else item ++ "[]"

/-- A field of an inline object type. -/
structure Field where
  name : String
  optional : Bool
  type : String

def Field.text (field : Field) : String :=
  propertyKey field.name ++ (if field.optional then "?" else "") ++ ": " ++ field.type

/-- An inline object type. -/
def object (fields : List Field) : String :=
  if fields.isEmpty then "{}"
  else r"{ " ++ ", ".intercalate (fields.map Field.text) ++ r" }"

end TypedClient.TypeScript.TypeExpr
