import TypedClient.Json.Value
import TypedClient.Model.Schema

/-! The named schemas of an API. A catalog is two maps that are filled together: the
schemas, and beside them the properties that each schema declares itself. -/

namespace TypedClient.Model

open Json

/-- A named schema with the properties that it declares itself. -/
structure Entry where
  name : String
  schema : Schema
  fields : Fields

/-- Both maps keep the order in which their names came first. -/
structure Catalog where
  schemas : List (String × Schema)
  fields : List (String × Fields)

namespace Catalog

def empty : Catalog := ⟨[], []⟩

/-- Adds a schema with its properties; those of a name that is there are replaced. -/
def insert (c : Catalog) (name : String) (schema : Schema) (fields : Fields) : Catalog :=
  ⟨setEntry name schema c.schemas, setEntry name fields c.fields⟩

/-- The properties that the schema of a name declares itself. -/
def fields? (c : Catalog) (name : String) : Option Fields := c.fields.lookup name

/-- The schemas in order, each with its properties. -/
def entries (c : Catalog) : List Entry :=
  c.schemas.map fun (name, schema) => ⟨name, schema, (c.fields? name).getD .none⟩

end Catalog

end TypedClient.Model
