/-! Splitting identifiers into words and joining the words in Pascal and camel
case. A word is a run of ASCII letters and digits; inside a run a new word starts
where an uppercase letter follows a lowercase one. Every other character only
separates words. -/

namespace TypedClient.Text

/-- Whether `c`, with `rest` behind it, continues into the word of the next character. -/
def joinsNext (c : Char) (rest : List Char) : Bool :=
  match rest with
  | [] => false
  | next :: _ => next.isAlphanum && !(c.isLower && next.isUpper)

/-- Puts a character in front of the first word. -/
def consWord (c : Char) : List (List Char) → List (List Char)
  | [] => [[c]]
  | word :: words => (c :: word) :: words

/-- The words of a character list. -/
def wordChars : List Char → List (List Char)
  | [] => []
  | c :: rest =>
    if c.isAlphanum then
      if joinsNext c rest then consWord c (wordChars rest) else [c] :: wordChars rest
    else wordChars rest

/-- A word with its first letter in upper case. -/
def capitalize : List Char → List Char
  | [] => []
  | c :: rest => c.toUpper :: rest

/-- The words, each capitalized, without separators. -/
def pascalChars (cs : List Char) : List Char := (wordChars cs).flatMap capitalize

/-- The first word in lower case, the others capitalized, without separators. -/
def camelChars (cs : List Char) : List Char :=
  match wordChars cs with
  | [] => []
  | first :: others => first.map Char.toLower ++ others.flatMap capitalize

/-- The words of a text: `getUser_by-id` has `get`, `User`, `by` and `id`. -/
def words (s : String) : List String := (wordChars s.toList).map String.ofList

/-- Pascal case: `get_users` becomes `GetUsers`. -/
def pascalCase (s : String) : String := String.ofList (pascalChars s.toList)

/-- Camel case: `GetUsers` becomes `getUsers`. -/
def camelCase (s : String) : String := String.ofList (camelChars s.toList)

end TypedClient.Text
