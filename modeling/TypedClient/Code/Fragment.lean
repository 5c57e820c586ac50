/-! Fragments of code: lines whose indentation is left open, with nesting expressed
by blocks. -/

namespace TypedClient.Code

/-- A piece of code at a depth still to be chosen. -/
inductive Fragment
  /-- An indented line. -/
  | line (text : String)
  | blank
  /-- Text as it is, neither indented nor ended. -/
  | raw (text : String)
  /-- A header line, a body one level deeper, and a closing line if there is one. -/
  | block (header : String) (body : List Fragment) (close : Option String)
  | sequence (body : List Fragment)
  /-- A comment line; bare slashes when the text is empty. -/
  | comment (text : String)
  deriving Inhabited

/-- One comment per line. -/
def Fragment.comments (lines : List String) : List Fragment := lines.map Fragment.comment

end TypedClient.Code
