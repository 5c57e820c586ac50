import TypedClient.Route.Placeholders
import TypedClient.TypeScript.Name

/-! The template literal that fills in a path. A placeholder that names a path
parameter becomes a member access on `params`; everything else of the path stays
literal text. -/

namespace TypedClient.TypeScript

open Route

/-- A character of literal text inside backquotes. -/
def escapeTemplateChar (c : Char) : List Char :=
  if c = '`' || c = '\\' || c = '$' then ['\\', c] else [c]

def templateText (text : List Char) : List Char := text.flatMap escapeTemplateChar

/-- A parameter filled in. -/
def templateHole (name : List Char) : List Char :=
  '$' :: '{' :: ((propertyAccess "params" (String.ofList name)).toList ++ ['}'])

/-- Writes `rest` behind `out` with the placeholders that name a parameter filled in. -/
def fillPlaceholders (params : List String) (out rest : List Char) : List Char :=
  match _found : rest.idxOf? '{' with
  | none => out ++ templateText rest
  | some start =>
    match (rest.drop start).idxOf? '}' with
    | none => out ++ templateText rest
    | some len =>
      let name := rest.extract (start + 1) (start + len)
      let hole :=
        if params.contains (String.ofList name) then templateHole name
        else templateText (rest.extract start (start + len + 1))
      fillPlaceholders params (out ++ templateText (rest.take start) ++ hole)
        (rest.drop (start + len + 1))
termination_by rest.length
decreasing_by exact length_drop_of_idxOf? _found len

/-- The template literal of a path with parameters of the given names. -/
def pathLiteral (path : String) (params : List String) : String :=
  String.ofList (fillPlaceholders params ['`'] path.toList ++ ['`'])

end TypedClient.TypeScript
