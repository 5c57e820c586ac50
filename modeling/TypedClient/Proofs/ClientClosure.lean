import TypedClient.Generator
import TypedClient.Proofs.FunctionCode

/-! The client and the types document agree on every operation. The client function
takes an argument when there is a request interface, names no types but those declared
for its operation, and reads from its argument only fields of the interface: the path
fields in the holes of the path, and the query object and the body where they are. -/

namespace TypedClient.TypeScript

open Code

/-! ### What code uses -/

/-- The member that is accessed at the start of the elements, if one is. -/
def accessed : List Token → Option String
  | .mark '.' :: .word name :: _ => some (String.ofList name)
  | .mark '[' :: .quoted name :: .mark ']' :: _ => some (String.ofList name)
  | _ => none

/-- The words of code that are not members of something, each with the member of it that is
accessed, if one is. -/
def uses : List Token → List (String × Option String)
  | [] => []
  | .mark '.' :: .word _ :: rest => uses rest
  | .word name :: rest => (String.ofList name, accessed rest) :: uses rest
  | _ :: rest => uses rest

/-- The word that the elements start with, with the member of it that is accessed. -/
def firstUse : List Token → Option (String × Option String)
  | .word name :: rest => some (String.ofList name, accessed rest)
  | _ => none

/-- What the holes of template literals hold. -/
def holes : List Token → List (Option (String × Option String))
  | [] => []
  | .opening :: rest => firstUse rest :: holes rest
  | _ :: rest => holes rest

/-- The entries `key: object.member` of object literals. -/
def entries : List Token → List (String × String × String)
  | [] => []
  | .word key :: .mark ':' :: .word object :: .mark '.' :: .word member :: .mark c :: rest =>
    if c = ',' ∨ c = '}' then
      (String.ofList key, String.ofList object, String.ofList member) :: entries rest
    else entries rest
  | _ :: rest => entries rest

/-- The names that the types document declares for an operation. -/
def EndpointTypes.declared (e : EndpointTypes) : List String :=
  e.elements.filterMap fun element =>
    match element with
    | .type declaration => some declaration.name
    | _ => none

/-- The words that every client function may use, beside its own name. Of these, `Promise` and
`ApiTypes` stand for types. -/
def functionWords : List String :=
  ["const", "async", "params", "ApiTypes", "Promise", "return", "await", "useApiService", "baseURL",
    "method", "query", "body"]

/-- Whether there is a field for the nested query object. -/
def HasQueryObject (fields : List Field) : Prop :=
  ∃ optional comments nested, .nested "query" optional comments nested ∈ fields

/-- Whether there is a field for the body. -/
def HasBody (fields : List Field) : Prop :=
  ∃ optional comments type, .plain "body" optional comments type ∈ fields

/-- The signature and the body of a client function keep to the types declared for its operation.
The fields of a request interface start with its path fields, one for each path parameter. -/
structure Function.KeepsTo (f : Function) (signature body : List Token) (e : EndpointTypes)
    (op : Model.Operation) : Prop where
  /-- There is an argument when there is a request interface. -/
  argument : (∃ p ∈ f.params, p.name = "params") ↔ e.request.isSome = true
  words : ∀ use ∈ uses signature ++ uses body, use.1 = f.name ∨ use.1 ∈ functionWords
  types : ∀ name, ("ApiTypes", some name) ∈ uses signature ++ uses body → name ∈ e.declared
  /-- The argument is never used as a whole. -/
  members : ∀ member, ("params", member) ∈ uses body →
    ∃ i ∈ e.request, ∃ field ∈ i.fields, member = some field.name
  pathFields : ∀ i ∈ e.request,
    (i.fields.take op.pathParameters.length).map Field.name = op.pathParameters.map (·.name)
  holes : ∀ hole ∈ holes body, ∃ i ∈ e.request, ∃ field ∈ i.fields.take op.pathParameters.length,
    hole = some ("params", some field.name)
  query : ("query", "params", "query") ∈ entries body ↔ ∃ i ∈ e.request, HasQueryObject i.fields
  /-- A path parameter may be called `body` as well; the field of the body is behind the path
  fields. -/
  body : ("body", "params", "body") ∈ entries body ↔
    ∃ i ∈ e.request, HasBody (i.fields.drop op.pathParameters.length)

/-! ### What a template literal uses -/

def Piece.uses : Piece → List (String × Option String)
  | .text _ => []
  | .member name => [("params", some (String.ofList name))]

/-- What is computed from elements one after the other and takes `part` to `g part` takes the
elements of all parts to what it gives for each. -/
theorem flatMap_pieces {α : Type} {f : List Token → List α} {g : Piece → List α}
    (h : ∀ part rest, f (part.tokens ++ rest) = g part ++ f rest) (parts : List Piece)
    (rest : List Token) : f (parts.flatMap Piece.tokens ++ rest) = parts.flatMap g ++ f rest := by
  induction parts with
  | nil => rfl
  | cons part parts ih =>
    rw [List.flatMap_cons, List.append_assoc, h, ih, List.flatMap_cons, List.append_assoc]

theorem uses_pieces (parts : List Piece) (rest : List Token) :
    uses (parts.flatMap Piece.tokens ++ rest) = parts.flatMap Piece.uses ++ uses rest := by
  refine flatMap_pieces (fun part rest => ?_) parts rest
  cases part with
  | text c => simp [Piece.tokens, Piece.uses, uses]
  | member name =>
    rw [Piece.tokens, accessTokens]
    split <;> simp [Piece.uses, uses, accessed]

theorem holes_pieces (parts : List Piece) (rest : List Token) :
    holes (parts.flatMap Piece.tokens ++ rest) = (parts.flatMap Piece.uses).map some ++ holes rest := by
  rw [List.map_flatMap]
  refine flatMap_pieces (fun part rest => ?_) parts rest
  cases part with
  | text c => simp [Piece.tokens, Piece.uses, holes]
  | member name =>
    rw [Piece.tokens, accessTokens]
    split <;> simp [Piece.uses, holes, firstUse, accessed]

theorem entries_pieces (parts : List Piece) (rest : List Token) :
    entries (parts.flatMap Piece.tokens ++ rest) = entries rest := by
  have hnone : parts.flatMap (fun _ => ([] : List (String × String × String))) = [] := by simp
  rw [← List.nil_append (entries rest), ← hnone]
  refine flatMap_pieces (fun part rest => ?_) parts rest
  cases part with
  | text c => simp [Piece.tokens, entries]
  | member name =>
    rw [Piece.tokens, accessTokens]
    split <;> simp [entries]

theorem mem_of_member_filledHole {params : List String} {hole name : List Char}
    (h : .member name ∈ filledHole params hole) : String.ofList name ∈ params := by
  unfold filledHole at h
  split at h
  · next hp =>
    obtain rfl : name = hole := by simpa using h
    simpa using hp
  · simp at h

/-- Only parameters are filled in. -/
theorem mem_of_member_filled {params : List String} {t : Route.Template} {name : List Char}
    (h : .member name ∈ filled params t) : String.ofList name ∈ params := by
  rcases List.mem_append.mp h with h | h
  · obtain ⟨step, _, h⟩ := List.mem_flatMap.mp h
    rcases List.mem_append.mp h with h | h
    · simp at h
    · exact mem_of_member_filledHole h
  · simp at h

/-- What the literal of a path uses are parameters, as members of the argument. -/
theorem exists_param_of_use {params : List String} {t : Route.Template}
    {use : String × Option String} (h : use ∈ (filled params t).flatMap Piece.uses) :
    ∃ name ∈ params, use = ("params", some name) := by
  obtain ⟨part, hpart, huse⟩ := List.mem_flatMap.mp h
  cases part with
  | text c => simp [Piece.uses] at huse
  | member name => exact ⟨_, mem_of_member_filled hpart, by simpa [Piece.uses] using huse⟩

/-! ### What a client function uses -/

namespace Signature

variable (s : Signature)

/-- What the literal of the path uses. -/
def pathUses : List (String × Option String) :=
  (filled (s.pathParams.map (·.name)) (Route.Template.ofChars s.path.toList)).flatMap Piece.uses

theorem uses_header : uses s.headerTokens =
    [("const", none), (s.functionName, none), ("async", none)] ++
      (if s.takesInput then
        [("params", none), ("ApiTypes", some s.requestName)] else []) ++
      [("Promise", none), ("ApiTypes", some s.responseName)] := by
  unfold headerTokens argumentTokens
  cases s.takesInput <;> simp [Token.named, importedTokens, uses, accessed]

theorem uses_body : uses s.bodyTokens =
    [("return", none), ("await", none), ("useApiService", none),
      ("ApiTypes", some s.responseName)] ++ s.pathUses ++
      [("baseURL", none), ("method", none)] ++
      (if s.hasQuery then
        [("query", none), ("params", some "query")] else []) ++
      (if s.hasBody then
        [("body", none), ("params", some "body")] else []) := by
  unfold bodyTokens
  cases s.hasQuery <;> cases s.hasBody <;>
    simp [Token.named, importedTokens, passedTokens, literalTokens, uses, accessed, uses_pieces,
      pathUses]

theorem holes_body : holes s.bodyTokens = s.pathUses.map some := by
  unfold bodyTokens
  cases s.hasQuery <;> cases s.hasBody <;>
    simp [Token.named, importedTokens, passedTokens, literalTokens, holes, holes_pieces, pathUses]

theorem entries_body : entries s.bodyTokens =
    (if s.hasQuery then [("query", "params", "query")] else []) ++
      (if s.hasBody then [("body", "params", "body")] else []) := by
  unfold bodyTokens
  cases s.hasQuery <;> cases s.hasBody <;>
    simp [Token.named, importedTokens, passedTokens, literalTokens, entries, entries_pieces]

/-! ### The request interface -/

theorem declared_types : EndpointTypes.declared ⟨s.request, s.response⟩ =
    (if s.takesInput then [s.requestName] else []) ++ [s.responseName] := by
  cases h : s.takesInput <;>
    simp [EndpointTypes.declared, EndpointTypes.elements, request, response, h, Declaration.name]

theorem mem_request {s : Signature} {i : Interface} :
    i ∈ s.request ↔ s.takesInput = true ∧ ⟨s.requestName, [], s.requestFields⟩ = i := by
  unfold request
  cases s.takesInput <;> simp

theorem take_requestFields :
    s.requestFields.take s.pathParams.length = s.pathParams.map (paramField false) := by
  unfold requestFields
  rw [List.append_assoc]
  exact List.take_left' (by simp)

theorem drop_requestFields : s.requestFields.drop s.pathParams.length =
    (if s.hasQuery then
      [.nested "query" s.queryOptional [] (s.queryParams.map fun p => paramField (!p.required) p)]
    else []) ++ (match s.bodyType with | none => [] | some type => [.plain "body" false [] type]) := by
  unfold requestFields
  rw [List.append_assoc]
  exact List.drop_left' (by simp)

/-- The query object is there when there are query parameters. -/
theorem hasQueryObject_requestFields : HasQueryObject s.requestFields ↔ s.hasQuery = true := by
  unfold HasQueryObject requestFields
  cases s.hasQuery <;> cases s.bodyType <;> simp [paramField]

/-- The field of the body is there when there is a body. -/
theorem hasBody_requestFields :
    HasBody (s.requestFields.drop s.pathParams.length) ↔ s.hasBody = true := by
  rw [HasBody, drop_requestFields, hasBody]
  cases s.hasQuery <;> cases s.bodyType <;> simp

/-! ### Agreement -/

variable {s : Signature} (h : s.WellFormed)

/-- A property of the fields that implies input holds of the request interface. -/
theorem exists_request_iff {P : List Field → Prop} (hP : P s.requestFields → s.takesInput = true) :
    (∃ i ∈ s.request, P i.fields) ↔ P s.requestFields := by
  constructor
  · rintro ⟨i, hi, hfields⟩
    obtain ⟨_, rfl⟩ := mem_request.mp hi
    exact hfields
  · exact fun hfields => ⟨_, mem_request.mpr ⟨hP hfields, rfl⟩, hfields⟩

include h

/-- What the literal of the path uses are path fields of the request interface. -/
theorem exists_field_of_pathUse {use : String × Option String} (hu : use ∈ s.pathUses) :
    ∃ i ∈ s.request, ∃ field ∈ i.fields.take s.pathParams.length,
      use = ("params", some field.name) := by
  obtain ⟨name, hname, rfl⟩ := exists_param_of_use hu
  obtain ⟨p, hp, rfl⟩ := List.mem_map.mp hname
  have hinput : s.takesInput = true := h.input.mpr (.inl (List.ne_nil_of_mem hp))
  refine ⟨_, mem_request.mpr ⟨hinput, rfl⟩, paramField false p, ?_, rfl⟩
  rw [take_requestFields]
  exact List.mem_map_of_mem hp

/-- The argument is used for its fields only. -/
theorem exists_field_of_member {member : Option String}
    (hm : ("params", member) ∈ uses s.bodyTokens) :
    ∃ i ∈ s.request, ∃ field ∈ i.fields, member = some field.name := by
  rw [uses_body, List.mem_append, List.mem_append, List.mem_append, List.mem_append] at hm
  rcases hm with (((hm | hm) | hm) | hm) | hm
  · simp at hm
  · obtain ⟨i, hi, field, hfield, huse⟩ := exists_field_of_pathUse h hm
    exact ⟨i, hi, field, List.mem_of_mem_take hfield, (Prod.mk.inj huse).2⟩
  · simp at hm
  · cases hq : s.hasQuery with
    | false => simp [hq] at hm
    | true =>
      obtain ⟨optional, comments, fields, hfield⟩ := (hasQueryObject_requestFields s).mpr hq
      refine ⟨_, mem_request.mpr ⟨h.input.mpr (.inr (.inl hq)), rfl⟩, _, hfield, ?_⟩
      simpa [hq, Field.name] using hm
  · cases hb : s.hasBody with
    | false => simp [hb] at hm
    | true =>
      obtain ⟨optional, comments, type, hfield⟩ := (hasBody_requestFields s).mpr hb
      refine ⟨_, mem_request.mpr ⟨h.input.mpr (.inr (.inr hb)), rfl⟩, _,
        List.mem_of_mem_drop hfield, ?_⟩
      simpa [hb, Field.name] using hm

theorem query_mem_entries : ("query", "params", "query") ∈ entries s.bodyTokens ↔
    ∃ i ∈ s.request, HasQueryObject i.fields := by
  have hinput := fun hq => h.input.mpr (.inr (.inl ((hasQueryObject_requestFields s).mp hq)))
  rw [exists_request_iff (P := HasQueryObject) hinput, hasQueryObject_requestFields, entries_body]
  cases s.hasQuery <;> cases s.hasBody <;> simp

theorem body_mem_entries : ("body", "params", "body") ∈ entries s.bodyTokens ↔
    ∃ i ∈ s.request, HasBody (i.fields.drop s.pathParams.length) := by
  have hinput := fun hb => h.input.mpr (.inr (.inr ((hasBody_requestFields s).mp hb)))
  rw [exists_request_iff (P := fun fields => HasBody (fields.drop s.pathParams.length)) hinput,
    hasBody_requestFields, entries_body]
  cases s.hasQuery <;> cases s.hasBody <;> simp

omit h

/-- The types that are named are those declared. -/
theorem declared_of_use {name : String}
    (hu : ("ApiTypes", some name) ∈ uses s.headerTokens ++ uses s.bodyTokens) :
    name ∈ EndpointTypes.declared ⟨s.request, s.response⟩ := by
  have hpath : ("ApiTypes", some name) ∉ s.pathUses := by
    intro hp
    obtain ⟨_, _, huse⟩ := exists_param_of_use hp
    simp at huse
  simpa [uses_header, uses_body, declared_types, hpath] using hu

theorem words_of_uses : ∀ use ∈ uses s.headerTokens ++ uses s.bodyTokens,
    use.1 = s.functionName ∨ use.1 ∈ functionWords := by
  have hpath : ∀ use ∈ s.pathUses, use.1 = s.functionName ∨ use.1 ∈ functionWords := by
    intro use hu
    obtain ⟨_, _, rfl⟩ := exists_param_of_use hu
    exact .inr (by simp [functionWords])
  simp only [uses_header, uses_body, List.forall_mem_append]
  refine ⟨⟨⟨?_, ?_⟩, ?_⟩, ⟨⟨⟨⟨?_, hpath⟩, ?_⟩, ?_⟩, ?_⟩⟩
  · simp [functionWords]
  · split <;> simp [functionWords]
  · simp [functionWords]
  · simp [functionWords]
  · simp [functionWords]
  · split <;> simp [functionWords]
  · split <;> simp [functionWords]

include h in
/-- A client function keeps to the types of its operation. -/
theorem function_keepsTo {op : Model.Operation}
    (hparams : s.pathParams.map (·.name) = op.pathParameters.map (·.name)) :
    s.function.KeepsTo s.headerTokens s.bodyTokens ⟨s.request, s.response⟩ op := by
  have hlength : s.pathParams.length = op.pathParameters.length := by
    simpa using congrArg List.length hparams
  refine ⟨?_, words_of_uses, fun _ => declared_of_use, fun _ => exists_field_of_member h,
    ?_, ?_, ?_, ?_⟩
  · unfold function request
    cases s.takesInput <;> simp
  · intro i hi
    obtain ⟨_, rfl⟩ := mem_request.mp hi
    rw [← hlength, take_requestFields, ← hparams, List.map_map]
    rfl
  · intro hole hm
    rw [holes_body] at hm
    obtain ⟨use, hu, rfl⟩ := List.mem_map.mp hm
    obtain ⟨i, hi, field, hfield, rfl⟩ := exists_field_of_pathUse h hu
    exact ⟨i, hi, field, hlength ▸ hfield, rfl⟩
  · exact query_mem_entries h
  · rw [← hlength]
    exact body_mem_entries h

end Signature

open Signature

/-- Every operation has its types and its client function at its place in the two documents, and
the code of the function keeps to the types. -/
theorem clientDocument_keepsTo_typesDocument (g : Generator) (n : Nat) (op : Model.Operation)
    (h : g.api.operations[n]? = some op) :
    ∃ e f signature body, g.typesDocument.endpoints[n]? = some e ∧
      g.clientDocument.functions[n]? = some f ∧ tokens f.header = some signature ∧
      tokens (render f.body) = some body ∧ f.KeepsTo signature body e op := by
  have hs := wellFormed_ofOperation g.config.generation op
  refine ⟨_, _, _, _, ?_, ?_, tokens_header hs, tokens_body hs, function_keepsTo hs ?_⟩
  · simp [Generator.typesDocument, Generator.signatures, h]
  · simp [Generator.clientDocument, Generator.signatures, h]
  · simp [ofOperation, ParamType.ofParameter, Function.comp_def]

/-- An operation that takes input of every kind. -/
def updatePet : Model.Operation :=
  { method := .put
    path := "/pets/{pet-id}"
    declaredId := none
    summary := none
    description := none
    parameters := [⟨"pet-id", .path, true, none, none⟩, ⟨"dryRun", .query, false, none, none⟩]
    requestBody := some ⟨none, true, none⟩
    response := none }

/-- An API of the one operation. -/
def petGenerator : Generator :=
  { api := ⟨⟨"Pets", "1", none⟩, .empty, [updatePet]⟩
    counts := .ofApi ⟨⟨"Pets", "1", none⟩, .empty, [updatePet]⟩
    config := .default
    generatedAt := none }

theorem petGenerator_keepsTo_typesDocument :
    petGenerator.api.operations[0]? = some updatePet ∧ ∃ e f signature body,
      petGenerator.typesDocument.endpoints[0]? = some e ∧
        petGenerator.clientDocument.functions[0]? = some f ∧ tokens f.header = some signature ∧
        tokens (render f.body) = some body ∧ f.KeepsTo signature body e updatePet :=
  ⟨rfl, clientDocument_keepsTo_typesDocument petGenerator 0 updatePet rfl⟩

end TypedClient.TypeScript
