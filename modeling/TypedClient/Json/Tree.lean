import TypedClient.Json.Token

/-! The syntax tree of a JSON text, cut off where the text stops being JSON. What
stands before the cut is kept as it was read, so that whoever interprets the tree
meets the problems of a text in the order in which they stand in it. -/

namespace TypedClient.Json

/-- A value as written. Strings and numbers may still turn out unreadable; nothing is said about
how deeply values nest. -/
inductive Tree
  /-- No value can be read here. -/
  | missing
  | null
  | bool (b : Bool)
  | number (n : Numeral)
  | string (s : Text)
  /-- The items, and whether the closing bracket was reached. -/
  | array (items : List Tree) (closed : Bool)
  /-- The entries, and whether the closing brace was reached. -/
  | object (entries : List (Text × Tree)) (closed : Bool)

instance : Inhabited Tree := ⟨.missing⟩

/-- A tree with the mark whether the text held it whole, and nothing else. -/
structure Reading where
  tree : Tree
  whole : Bool

namespace Reading

/-- An array or object around the place where the text is read; items and entries last first. -/
inductive Frame
  | array (items : List Tree)
  | object (entries : List (Text × Tree)) (key : Text)

/-- Puts a tree in which the text was cut off into the frames around it. -/
def cutOff (tree : Tree) : List Frame → Tree
  | [] => tree
  | .array items :: frames => cutOff (.array (items.reverse ++ [tree]) false) frames
  | .object entries key :: frames =>
    cutOff (.object (entries.reverse ++ [(key, tree)]) false) frames

/-- What may come next. -/
inductive Expect
  /-- A value. -/
  | value
  /-- The first item of an array, or its end. -/
  | item
  /-- The first key of an object, or its end. -/
  | key
  /-- A key behind a comma, with the entries before it, last first. -/
  | nextKey (entries : List (Text × Tree))
  | colon (entries : List (Text × Tree)) (key : Text)
  /-- A comma or a closing bracket behind a value. -/
  | following (value : Tree)

/-- What follows a token that begins a value inside frames. -/
def start (frames : List Frame) : Token → Option (Expect × List Frame)
  | .openBracket => some (.item, .array [] :: frames)
  | .openBrace => some (.key, frames)
  | .null => some (.following .null, frames)
  | .bool b => some (.following (.bool b), frames)
  | .number n => some (.following (.number n), frames)
  | .string s => some (.following (.string s), frames)
  | _ => none

/-- Reads tokens inside frames. -/
def run : Expect → List Frame → List Token → Reading
  | .following value, [], rest => ⟨value, rest.isEmpty⟩
  | .following value, .array items :: frames, .comma :: rest =>
    run .value (.array (value :: items) :: frames) rest
  | .following value, .array items :: frames, .closeBracket :: rest =>
    run (.following (.array (value :: items).reverse true)) frames rest
  | .following value, .array items :: frames, _ =>
    ⟨cutOff (.array (value :: items).reverse false) frames, false⟩
  | .following value, .object entries key :: frames, .comma :: rest =>
    run (.nextKey ((key, value) :: entries)) frames rest
  | .following value, .object entries key :: frames, .closeBrace :: rest =>
    run (.following (.object ((key, value) :: entries).reverse true)) frames rest
  | .following value, .object entries key :: frames, _ =>
    ⟨cutOff (.object ((key, value) :: entries).reverse false) frames, false⟩
  | .item, .array items :: frames, .closeBracket :: rest =>
    run (.following (.array items.reverse true)) frames rest
  | .item, frames, token :: rest | .value, frames, token :: rest =>
    match start frames token with
    | some (expect, inner) => run expect inner rest
    | none => ⟨cutOff .missing frames, false⟩
  | .item, frames, [] | .value, frames, [] => ⟨cutOff .missing frames, false⟩
  | .key, frames, .closeBrace :: rest => run (.following (.object [] true)) frames rest
  | .key, frames, .string s :: rest => run (.colon [] s) frames rest
  | .key, frames, _ => ⟨cutOff (.object [] false) frames, false⟩
  | .nextKey entries, frames, .string s :: rest => run (.colon entries s) frames rest
  | .nextKey entries, frames, _ => ⟨cutOff (.object entries.reverse false) frames, false⟩
  | .colon entries key, frames, .colon :: rest => run .value (.object entries key :: frames) rest
  | .colon entries key, frames, _ => ⟨cutOff .missing (.object entries key :: frames), false⟩

end Reading

/-- Reads a text. -/
def Reading.ofText (s : String) : Reading := Reading.run .value [] (tokens s.toList)

end TypedClient.Json
