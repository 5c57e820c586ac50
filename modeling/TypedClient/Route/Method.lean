/-! The HTTP methods a path item may declare. -/

namespace TypedClient.Route

inductive Method
  | get | put | post | delete | options | head | patch | trace
  deriving DecidableEq, Repr

namespace Method

/-- All methods, in the order in which they are looked up. -/
def all : List Method := [get, put, post, delete, options, head, patch, trace]

/-- The method as a key of a path item. -/
def lower : Method → String
  | get => "get"
  | put => "put"
  | post => "post"
  | delete => "delete"
  | options => "options"
  | head => "head"
  | patch => "patch"
  | trace => "trace"

/-- The method as it is sent. -/
def upper : Method → String
  | get => "GET"
  | put => "PUT"
  | post => "POST"
  | delete => "DELETE"
  | options => "OPTIONS"
  | head => "HEAD"
  | patch => "PATCH"
  | trace => "TRACE"

/-- The method that a key names, whatever the case of its letters; none for keys such as
`parameters` or `summary`. -/
def ofKey? (key : String) : Option Method :=
  all.find? fun method => method.lower.toList == key.toList.map Char.toLower

end Method

end TypedClient.Route
