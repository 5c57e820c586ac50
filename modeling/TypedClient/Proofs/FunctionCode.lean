import TypedClient.Proofs.OperationNames
import TypedClient.Proofs.TemplateLiteral
import TypedClient.TypeScript.Declare

/-! The code of a client function as a list of elements: its signature, and its body,
which is one call of the helper. Only the names of the operation, the template literal
of the path and the two optional entries of the call vary. -/

namespace TypedClient.TypeScript

open Code

namespace Signature

variable {s : Signature}

/-- What holds of the signature of any operation: its names are words, and it takes input when
there is something to hand over. -/
structure WellFormed (s : Signature) : Prop where
  function : IsCodeWord s.functionName
  type : IsCodeWord s.typeName
  input : s.takesInput = true ↔ s.pathParams ≠ [] ∨ s.hasQuery = true ∨ s.hasBody = true

theorem takesInput_iff (op : Model.Operation) : op.takesInput = true ↔
    op.pathParameters ≠ [] ∨ op.queryParameters ≠ [] ∨ op.requestBody.isSome = true := by
  have hparameters : op.parameters ≠ [] ↔ op.pathParameters ≠ [] ∨ op.queryParameters ≠ [] := by
    unfold Model.Operation.pathParameters Model.Operation.queryParameters
    cases op.parameters with
    | nil => simp
    | cons p rest => cases hp : p.place <;> simp [hp]
  rw [← or_assoc, ← hparameters]
  simp [Model.Operation.takesInput]

theorem wellFormed_ofOperation (settings : Config.Generation) (op : Model.Operation) :
    (ofOperation settings op).WellFormed := by
  refine ⟨?_, ?_, ?_⟩
  · simpa only [ofOperation] using isCodeWord_functionName op
  · simpa only [ofOperation] using isCodeWord_typeName op
  · simpa [ofOperation, hasQuery, hasBody] using takesInput_iff op

theorem WellFormed.request (h : s.WellFormed) : IsCodeWord s.requestName := by
  rw [requestName]
  exact h.type.append (by decide)

theorem WellFormed.response (h : s.WellFormed) : IsCodeWord s.responseName := by
  rw [responseName]
  exact h.type.append (by decide)

/-- A type of the types document. -/
def importedTokens (type : String) : List Token :=
  [.named "ApiTypes", .mark '.', .named type]

/-! ### The signature -/

def argumentTokens (s : Signature) : List Token :=
  if s.takesInput then [.named "params", .mark ':'] ++ importedTokens s.requestName else []

def headerTokens (s : Signature) : List Token :=
  [.named "const", .named s.functionName, .mark '=', .named "async", .mark '('] ++
    s.argumentTokens ++ [.mark ')', .mark ':', .named "Promise", .mark '<'] ++
    importedTokens s.responseName ++ [.mark '>', .mark '=', .mark '>', .mark '{']

theorem header_chars (s : Signature) : s.function.header.toList =
    "const ".toList ++ (s.functionName.toList ++ (" = async (".toList ++
      ((if s.takesInput then "params: ApiTypes.".toList ++ s.requestName.toList else []) ++
        ("): Promise<ApiTypes.".toList ++ (s.responseName.toList ++ r"> => {".toList))))) := by
  unfold Function.header Signature.function
  cases s.takesInput
  · simp [imported, typesNamespace]
  · simp [Param.text, imported, typesNamespace]

/-- Code that may be left out. -/
theorem lexes_ite (b : Bool) {t : List Char} {ts : List Token} (h : Lexes false t ts) :
    Lexes false (if b then t else []) (if b then ts else []) := by
  cases b with
  | true => exact h
  | false => exact .nil

theorem tokens_header (h : s.WellFormed) : tokens s.function.header = some s.headerTokens := by
  have hconst : lex (.code false) "const ".toList = some [.named "const"] := rfl
  have hasync : lex (.code false) " = async (".toList =
      some [.mark '=', .named "async", .mark '('] := rfl
  have hpromise : lex (.code false) "): Promise<ApiTypes.".toList =
      some [.mark ')', .mark ':', .named "Promise", .mark '<', .named "ApiTypes", .mark '.'] := rfl
  have harrow : lex (.code false) r"> => {".toList =
      some [.mark '>', .mark '=', .mark '>', .mark '{'] := rfl
  have htype : lex (.code false) "params: ApiTypes.".toList =
      some [.named "params", .mark ':', .named "ApiTypes", .mark '.'] := rfl
  have hargument := lexes_ite s.takesInput (.after (by decide) htype h.request.lexes rfl)
  have hname := h.response.lexes.append (.plain (by decide) harrow) rfl
  have hresult := Lexes.after (by decide) hpromise hname rfl
  have hparams := Lexes.after (by decide) hasync (hargument.append hresult rfl) rfl
  have hheader := Lexes.after (by decide) hconst (h.function.lexes.append hparams rfl) rfl
  apply Lexes.tokens_eq
  rw [header_chars]
  simp only [headerTokens, argumentTokens, importedTokens, List.append_assoc, List.cons_append,
    List.nil_append] at hheader ⊢
  exact hheader

/-! ### The body -/

theorem body_chars (s : Signature) : (render s.function.body).toList =
    "return await useApiService<ApiTypes.".toList ++ (s.responseName.toList ++ (">(".toList ++
      (s.template.toList ++ ((r", {" ++ "\n  baseURL,\n  method: ").toList ++
        ((stringLiteral s.method.upper).toList ++
          ((if s.hasQuery then ",\n  query: params.query".toList else []) ++
            ((if s.hasBody then ",\n  body: params.body".toList else []) ++
              ['\n', '}', ')', '\n']))))))) := by
  have hmethod : propertyKey "method" = "method" := by decide
  have hquery : propertyKey "query" = "query" := by decide
  have hbody : propertyKey "body" = "body" := by decide
  cases hq : s.hasQuery <;> cases hb : s.hasBody <;>
    simp [render, function, call, options, entryFragments, Entry.line, hq, hb, hmethod, hquery, hbody,
      Buffer.emitAll, Buffer.emit, Buffer.line, Buffer.indent, Buffer.dedent, Buffer.closing,
      Buffer.indentation, Buffer.raw, Buffer.empty, serviceFunction, imported, typesNamespace,
      List.replicate]

/-- An entry of the options that passes a member of the argument under its own name. -/
def passedTokens (name : String) : List Token :=
  [.mark ',', .named name, .mark ':', .named "params", .mark '.', .named name]

def bodyTokens (s : Signature) : List Token :=
  [.named "return", .named "await", .named "useApiService", .mark '<'] ++
    importedTokens s.responseName ++ [.mark '>', .mark '('] ++
    literalTokens (s.pathParams.map (·.name)) s.path.toList ++
    [.mark ',', .mark '{', .named "baseURL", .mark ',', .named "method", .mark ':',
      .quoted s.method.upper.toList] ++
    (if s.hasQuery then passedTokens "query" else []) ++
    (if s.hasBody then passedTokens "body" else []) ++ [.mark '}', .mark ')']

theorem tokens_body (h : s.WellFormed) : tokens (render s.function.body) = some s.bodyTokens := by
  have hcall : lex (.code false) "return await useApiService<ApiTypes.".toList =
      some [.named "return", .named "await", .named "useApiService", .mark '<', .named "ApiTypes",
        .mark '.'] := rfl
  have hpath : lex (.code false) ">(".toList = some [.mark '>', .mark '('] := rfl
  have hoptions : lex (.code false) (r", {" ++ "\n  baseURL,\n  method: ").toList =
      some [.mark ',', .mark '{', .named "baseURL", .mark ',', .named "method", .mark ':'] := rfl
  have hclose : lex (.code false) ['\n', '}', ')', '\n'] = some [.mark '}', .mark ')'] := rfl
  have hqueryEntry : lex (.code false) ",\n  query: params.query".toList =
      some (passedTokens "query") := rfl
  have hbodyEntry : lex (.code false) ",\n  body: params.body".toList =
      some (passedTokens "body") := rfl
  have hquery := lexes_ite s.hasQuery (.plain (by decide) hqueryEntry)
  have hbody := lexes_ite s.hasBody (.plain (by decide) hbodyEntry)
  have hend := hbody.append (.plain (by decide) hclose) rfl
  have hentries := hquery.append hend (by cases s.hasBody <;> rfl)
  have hmethod := (lex_stringLiteral s.method.upper).append hentries
    (by cases s.hasQuery <;> cases s.hasBody <;> rfl)
  have harguments := (lex_pathLiteral s.path (s.pathParams.map (·.name))).append
    (.after (by decide) hoptions hmethod rfl) rfl
  have hresult := h.response.lexes.append (.after (by decide) hpath harguments rfl) rfl
  have hreturn := Lexes.after (by decide) hcall hresult rfl
  apply Lexes.tokens_eq
  rw [body_chars]
  simp only [bodyTokens, importedTokens, List.append_assoc, List.cons_append, List.nil_append]
    at hreturn ⊢
  exact hreturn

end Signature

end TypedClient.TypeScript
