/-! The settings of a run. Every key of the settings file is optional and has a
default. -/

namespace TypedClient

namespace Config

/-- The name under which the settings file is looked for. -/
def fileName : String := "apigen.toml"

/-- How an `allOf` composition becomes a type. -/
inductive Compose
  /-- Its first branch alone. -/
  | first
  /-- All branches at once. -/
  | intersection
  deriving DecidableEq, Repr

def Compose.name : Compose → String
  | .first => "first"
  | .intersection => "intersection"

/-- When the nested `query` field of a request is optional. -/
inductive QueryField
  /-- Never. -/
  | required
  /-- When every query parameter is. -/
  | optionalWhenAllOptional
  deriving DecidableEq, Repr

def QueryField.name : QueryField → String
  | .required => "required"
  | .optionalWhenAllOptional => "optional-when-all-optional"

structure Input where
  /-- The path of the API document. -/
  spec : String

/-- Where the generated files go; the three paths are relative to the directory. -/
structure Output where
  dir : String
  types : String
  client : String
  service : String

structure Client where
  /-- The title in generated headers, in place of the document's. -/
  title : Option String
  baseUrl : String
  typesImport : String
  serviceImport : String

structure Generation where
  compose : Compose
  queryField : QueryField
  /-- Whether operations that would share names are errors. -/
  uniqueOperationIds : Bool
  timestamp : Bool

def Input.default : Input := ⟨"swagger.json"⟩

def Output.default : Output :=
  ⟨".", "types/api.types.ts", "composables/useApi.ts", "composables/useApiService.ts"⟩

def Client.default : Client :=
  ⟨none, "http://localhost:3000", "../types/api.types", "./useApiService"⟩

def Generation.default : Generation := ⟨.first, .required, false, true⟩

end Config

open Config in
/-- The settings of a run. -/
structure Config where
  input : Input
  output : Output
  client : Client
  generation : Generation

namespace Config

def default : Config := ⟨.default, .default, .default, .default⟩

/-- The settings file that is written for a start; it spells out the defaults. -/
def template : String := "# apigen configuration

[input]
# OpenAPI JSON document to read
spec = \"swagger.json\"

[output]
# Base directory; the paths below are relative to it
dir = \".\"
types = \"types/api.types.ts\"
client = \"composables/useApi.ts\"
service = \"composables/useApiService.ts\"

[client]
# title = \"My API\"
base_url = \"http://localhost:3000\"
types_import = \"../types/api.types\"
service_import = \"./useApiService\"

[generation]
# \"first\" or \"intersection\"
compose = \"first\"
# \"required\" or \"optional-when-all-optional\"
query_field = \"required\"
unique_operation_ids = false
timestamp = true
"

end Config

end TypedClient
