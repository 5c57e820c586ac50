import TypedClient.Document.Basic

/-! References between parts of a document, and the parameters that apply to an
operation. A schema reference stands for the name behind its last slash; a
parameter reference is followed when it points into the document's components. -/

namespace TypedClient.Document

/-- The start of a reference to a schema of the document. -/
def schemaPointer : String := "#/components/schemas/"

/-- The start of a reference to a shared parameter of the document. -/
def parameterPointer : String := "#/components/parameters/"

/-- What follows `pointer` in a reference that starts with it. -/
def below? (pointer reference : String) : Option String :=
  (pointer.toList.isPrefixOf? reference.toList).map String.ofList

/-- What stands behind the last slash. -/
def lastSegment (reference : List Char) : List Char :=
  (reference.reverse.takeWhile (· != '/')).reverse

/-- The name that a schema reference stands for. -/
def referenceName (reference : String) : String := String.ofList (lastSegment reference.toList)

/-- Two parameters occupy the same slot when they agree in name and place. -/
def Parameter.sameSlot (p q : Parameter) : Bool := p.name == q.name && p.place == q.place

/-- The parameter that an entry stands for: itself, or the shared one it refers to. -/
def resolveParameter (d : Document) (p : Parameter) : Option Parameter :=
  match p.reference with
  | none => some p
  | some reference => (below? parameterPointer reference).bind fun name => d.components.parameters.lookup name

/-- The parameters that apply to an operation: those shared by its path item that it does not
redeclare, then its own. References that lead nowhere are dropped. -/
def effectiveParameters (d : Document) (item : PathItem) (op : Operation) : List Parameter :=
  let own := op.parameters.filterMap d.resolveParameter
  let shared := item.parameters.filterMap d.resolveParameter
  shared.filter (fun p => !own.any (·.sameSlot p)) ++ own

end TypedClient.Document
