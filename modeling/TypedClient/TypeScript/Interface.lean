import TypedClient.Code.Buffer
import TypedClient.TypeScript.Name

/-! Exported interfaces and type aliases. An interface lists its fields one per
line, each under its comments; a field is a type expression or a nested object. -/

namespace TypedClient.TypeScript

open Code

/-- What precedes the type in a field line: the key, and `?` when the field is optional. -/
def fieldLabel (name : String) (optional : Bool) : String :=
  propertyKey name ++ (if optional then "?" else "") ++ ": "

/-- A field of an interface. -/
inductive Field
  | plain (name : String) (optional : Bool) (comments : List String) (type : String)
  | nested (name : String) (optional : Bool) (comments : List String) (fields : List Field)
  deriving Inhabited

mutual

/-- The lines of a field. A nested object without fields is an empty literal. -/
def Field.fragments : Field → List Fragment
  | .plain name optional comments type =>
    Fragment.comments comments ++ [.line (fieldLabel name optional ++ type)]
  | .nested name optional comments fields =>
    Fragment.comments comments ++
      [if fields.isEmpty then .line (fieldLabel name optional ++ "{}")
        else .block (fieldLabel name optional ++ r"{") (fieldFragments fields) (some r"}")]

/-- The lines of fields, in order. -/
def fieldFragments : List Field → List Fragment
  | [] => []
  | field :: rest => field.fragments ++ fieldFragments rest

end

def Field.name : Field → String
  | .plain name _ _ _ => name
  | .nested name _ _ _ => name

/-- An exported interface. -/
structure Interface where
  name : String
  comments : List String
  fields : List Field

def Interface.fragments (i : Interface) : List Fragment :=
  Fragment.comments i.comments ++
    [if i.fields.isEmpty then .line ("export interface " ++ i.name ++ " {}")
      else .block ("export interface " ++ i.name ++ r" {") (fieldFragments i.fields) (some r"}")]

/-- An exported type alias. -/
structure Alias where
  name : String
  comments : List String
  type : String

def Alias.fragments (a : Alias) : List Fragment :=
  Fragment.comments a.comments ++ [.line ("export type " ++ a.name ++ " = " ++ a.type)]

/-- An exported type declaration. -/
inductive Declaration
  | interface (i : Interface)
  | alias (a : Alias)

def Declaration.fragments : Declaration → List Fragment
  | .interface i => i.fragments
  | .alias a => a.fragments

def Declaration.name : Declaration → String
  | .interface i => i.name
  | .alias a => a.name

end TypedClient.TypeScript
