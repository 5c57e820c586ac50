import TypedClient.Route.Method
import TypedClient.Route.Placeholders
import TypedClient.Text.Blank
import TypedClient.Text.Words

/-! The identifier of an operation: the one the document declares, or one derived
from the method and the path. -/

namespace TypedClient.Route

open Text

/-- Writes `rest` behind `out`, with `By` for each placeholder. -/
def replacePlaceholders (out rest : List Char) : List Char :=
  match _found : rest.idxOf? '{' with
  | none => out ++ rest
  | some start =>
    match (rest.drop start).idxOf? '}' with
    | none => out ++ rest
    | some len =>
      replacePlaceholders (out ++ rest.take start ++ ['B', 'y']) (rest.drop (start + len + 1))
termination_by rest.length
decreasing_by exact length_drop_of_idxOf? _found len

/-- The letters and digits of a path, with `By` in place of each placeholder. -/
def pathWords (path : List Char) : List Char :=
  (replacePlaceholders [] path).filter Char.isAlphanum

/-- The identifier derived from a method and a path: `GET /users/{id}/posts` gives
`getUsersByposts`. -/
def derivedId (method : Method) (path : String) : String :=
  method.lower ++ String.ofList (pascalChars (pathWords path.toList))

/-- The declared identifier, trimmed, when it holds a letter or digit that can name something;
else the derived one. -/
def operationId (method : Method) (path : String) (declared : Option String) : String :=
  match declared.map trim with
  | some id => if (pascalCase id).isEmpty then derivedId method path else id
  | none => derivedId method path

end TypedClient.Route
