import TypedClient.TypeScript.Declare
import TypedClient.TypeScript.ServiceSource

/-! The three generated documents: the types, the client, and the helper that sends
requests. -/

namespace TypedClient.TypeScript

open Code

/-- The comment lines at the top: what the document is for, and when it was made if that is to be
told. -/
def headerLines (purpose title : String) (generatedAt : Option String) : List String :=
  (purpose ++ " for " ++ title) ::
    match generatedAt with
    | none => []
    | some time => ["Generated at: " ++ time]

/-- The types of one operation. -/
structure EndpointTypes where
  request : Option Interface
  response : Alias

def EndpointTypes.elements (e : EndpointTypes) : List Element :=
  (match e.request with
    | none => []
    | some interface => [.type (.interface interface)]) ++ [.type (.alias e.response)]

/-- The types document. -/
structure TypesDocument where
  title : String
  generatedAt : Option String
  schemas : List Declaration
  endpoints : List EndpointTypes

namespace TypesDocument

/-- One declaration per schema, a marker, then the types of each operation. -/
def contents (d : TypesDocument) : Module :=
  { header := headerLines "Generated TypeScript types" d.title d.generatedAt
    imports := []
    body := d.schemas.map .type ++ [.code "// Endpoint-specific types"] ++
      d.endpoints.flatMap EndpointTypes.elements }

def render (d : TypesDocument) : String := d.contents.render

end TypesDocument

/-- The client document. -/
structure ClientDocument where
  title : String
  generatedAt : Option String
  typesImport : String
  serviceImport : String
  baseUrl : String
  functions : List Function

namespace ClientDocument

/-- The settings that the factory takes. -/
def settings : Interface := ⟨"ApiConfig", [], [.plain "apiBaseUrl" true [] "string"]⟩

/-- What the factory returns: its functions under their names. -/
def results (functions : List Function) : Fragment :=
  if functions.isEmpty then .line "return {}"
  else .block r"return {" (entryFragments (functions.map fun f => .shorthand f.name)) (some r"}")

/-- The factory that binds the base address and holds one function per operation. -/
def factory (functions : List Function) : Function :=
  { name := "useApi"
    comments := []
    params := [⟨"config", some "ApiConfig", some "{}"⟩]
    returns := none
    isAsync := false
    exported := true
    body :=
      [.sequence (Constant.fragments ⟨"baseURL", "config.apiBaseUrl ?? DEFAULT_API_BASE_URL", false⟩),
        .blank] ++
      (functions.flatMap fun f => [.sequence f.fragments, .blank]) ++ [results functions] }

/-- Imports of the types and of the helper, the settings, the default address, the factory. -/
def contents (d : ClientDocument) : Module :=
  { header := headerLines "Generated API client" d.title d.generatedAt
    imports := [⟨d.typesImport, some typesNamespace, [], true⟩,
      ⟨d.serviceImport, none, [serviceFunction], false⟩]
    body := [.type (.interface settings),
      .constant ⟨"DEFAULT_API_BASE_URL", stringLiteral d.baseUrl, true⟩,
      .function (factory d.functions)] }

def render (d : ClientDocument) : String := d.contents.render

end ClientDocument

/-- The helper document; it is the same for every API. -/
def serviceModule : Module :=
  { header := ["Generated HTTP helper for the API client"]
    imports := []
    body := [.code serviceSource] }

end TypedClient.TypeScript
