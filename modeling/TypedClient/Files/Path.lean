import TypedClient.Text.Cut

/-! Paths. A path is a text of segments between slashes. Empty segments and single
dots do not count, except that a path may be absolute and may start with a dot of
its own. -/

namespace TypedClient.Files

open Text

/-- The texts between the slashes. -/
def segments : List Char → List (List Char)
  | [] => [[]]
  | c :: rest =>
    if c = '/' then [] :: segments rest
    else
      match segments rest with
      | [] => [[c]]
      | first :: others => (c :: first) :: others

/-- Segments that lead nowhere. -/
def isInert (segment : List Char) : Bool := segment.isEmpty || segment == ['.']

/-- How a path starts, apart from its segments. -/
inductive Start
  | relative | dot | root
  deriving DecidableEq, Repr

def Start.text : Start → List Char
  | .relative => []
  | .dot => ['.']
  | .root => ['/']

/-- A path as its start and the segments behind it. -/
def parse (path : List Char) : Start × List (List Char) :=
  match path with
  | '/' :: rest => (.root, segments rest)
  | '.' :: '/' :: rest => (.dot, [] :: segments rest)
  | ['.'] => (.dot, [])
  | _ => (.relative, segments path)

/-- The parts that tell one path from another. -/
def components (path : String) : Start × List (List Char) :=
  let (start, parts) := parse path.toList
  (start, parts.filter fun part => !isInert part)

/-- Whether two paths are the same, whatever slashes and dots stand between their segments. -/
def samePath (p q : String) : Bool := components p == components q

def isAbsolute (path : String) : Bool := path.toList.head? == some '/'

/-- A path below a base; an absolute path stands for itself. -/
def join (base path : String) : String :=
  if isAbsolute path || base.isEmpty then path
  else if base.toList.getLast? == some '/' then base ++ path
  else base ++ "/" ++ path

/-- The segments of a path and of each directory above it, all last first, each list ending in a
segment that counts. -/
def upwards : List (List Char) → List (List (List Char))
  | [] => []
  | part :: rest => if isInert part then upwards rest else (part :: rest) :: upwards rest

/-- The path with a start and segments, last first. -/
def ofParts (start : Start) (parts : List (List Char)) : String :=
  String.ofList (start.text ++ ['/'].intercalate parts.reverse)

/-- The path of the directory that holds a path: empty for a bare name, none for the root and for
the empty path. -/
def parent? (path : String) : Option String :=
  let (start, parts) := parse path.toList
  match upwards parts.reverse, start with
  | _ :: above :: _, _ => some (ofParts start above)
  | [_], _ => some (ofParts start [])
  | [], .dot => some ""
  | [], _ => none

/-- The directories above a path, nearest first, as far as they have a name. -/
def ancestors (path : String) : List String :=
  let (start, parts) := parse path.toList
  ((upwards parts.reverse).drop 1).map (ofParts start)

end TypedClient.Files
