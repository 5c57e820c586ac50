import TypedClient.Text.Blank

/-! Lines of a text. A line feed ends a line, with one carriage return before it
dropped; a final line feed opens no further line, and a lone carriage return
ends nothing. -/

namespace TypedClient.Text

/-- The lines of a character list, without their endings. -/
def lineChars : List Char → List (List Char)
  | [] => []
  | '\n' :: rest => [] :: lineChars rest
  | '\r' :: '\n' :: rest => [] :: lineChars rest
  | c :: rest =>
    match lineChars rest with
    | [] => [[c]]
    | line :: lines => (c :: line) :: lines

/-- The lines of a text, without their endings. -/
def lines (s : String) : List String := (lineChars s.toList).map String.ofList

/-- The lines of a description, each trimmed; none when there is no description. -/
def noteLines (description : Option String) : List String :=
  match description with
  | none => []
  | some text => (lines text).map trim

end TypedClient.Text
