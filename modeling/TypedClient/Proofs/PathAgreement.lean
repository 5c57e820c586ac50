import TypedClient.Lint.Paths
import TypedClient.Proofs.ClientClosure
import TypedClient.Proofs.OperationSources

/-! The path of an operation and its generated code. The call fills in the placeholders that name a
path parameter, and the request has one field for each path parameter. Placeholders and parameters
are compared on the document as well, where the findings are reported; the two comparisons agree as
long as no path parameter has an empty name, since such a one is compared and never generated. -/

namespace TypedClient

open Code Document Lint Model Route TypeScript

namespace TypeScript

/-- The code of a call and the request type of its operation keep to a path: each placeholder is filled
in with the member of its name, and each of the first `count` fields is a placeholder. -/
structure KeepsToPath (path : String) (body : List Token) (e : EndpointTypes) (count : Nat) :
    Prop where
  filled : holes body = (placeholders path).map fun name => some ("params", some name)
  fields : ∀ i ∈ e.request, ∀ field ∈ i.fields.take count, field.name ∈ placeholders path

/-- What the literal of a path uses are its placeholders that name a parameter, in order. -/
theorem uses_filled (params : List String) (t : Template) :
    (filled params t).flatMap Piece.uses =
      ((t.names.map String.ofList).filter params.contains).map fun name => ("params", some name) := by
  have htext : ∀ text : List Char, (text.map Piece.text).flatMap Piece.uses = [] := by
    intro text
    rw [List.flatMap_map]
    exact List.flatMap_eq_nil_iff.mpr fun _ _ => rfl
  obtain ⟨steps, rest⟩ := t
  induction steps with
  | nil => simpa [filled, Template.names] using htext rest
  | cons step steps ih =>
    obtain ⟨text, name⟩ := step
    have hstep : filled params ⟨(text, name) :: steps, rest⟩ =
        text.map .text ++ (filledHole params name ++ filled params ⟨steps, rest⟩) := by
      simp [filled]
    have hnames : (Template.mk ((text, name) :: steps) rest).names =
        name :: (Template.mk steps rest).names := rfl
    have hhole : (filledHole params name).flatMap Piece.uses =
        if params.contains (String.ofList name) then [("params", some (String.ofList name))]
        else [] := by
      unfold filledHole
      split
      · rfl
      · exact htext _
    rw [hstep, List.flatMap_append, List.flatMap_append, htext, ih, hhole, hnames, List.map_cons,
      List.filter_cons]
    cases params.contains (String.ofList name) <;> rfl

/-- All of a list is kept when all of it is wanted. -/
theorem map_filter_eq_iff {α β : Type} {f : α → β} {p : α → Bool} {l : List α} :
    (l.filter p).map f = l.map f ↔ ∀ a ∈ l, p a = true := by
  constructor
  · intro h
    have hlength : (l.filter p).length = l.length := by simpa using congrArg List.length h
    exact List.length_filter_eq_length_iff.mp hlength
  · intro h
    rw [List.filter_eq_self.mpr h]

/-- A call and its request keep to the path when placeholders and path parameters are the same. -/
theorem keepsToPath_iff (s : Signature) (hs : s.WellFormed) :
    KeepsToPath s.path s.bodyTokens ⟨s.request, s.response⟩ s.pathParams.length ↔
      (∀ name ∈ placeholders s.path, name ∈ s.pathParams.map (·.name)) ∧
        ∀ name ∈ s.pathParams.map (·.name), name ∈ placeholders s.path := by
  have hholes : holes s.bodyTokens =
      (((placeholders s.path).filter (s.pathParams.map (·.name)).contains).map
        fun name => some ("params", some name)) := by
    rw [s.holes_body, Signature.pathUses, uses_filled, List.map_map,
      placeholders_eq (Template.ofChars_decomposes s.path.toList)]
    rfl
  have hfilled : holes s.bodyTokens =
        ((placeholders s.path).map fun name => some ("params", some name)) ↔
      ∀ name ∈ placeholders s.path, name ∈ s.pathParams.map (·.name) := by
    rw [hholes, map_filter_eq_iff]
    simp only [List.contains_iff_mem]
  have hfields : (∀ i ∈ s.request, ∀ field ∈ i.fields.take s.pathParams.length,
        field.name ∈ placeholders s.path) ↔
      ∀ name ∈ s.pathParams.map (·.name), name ∈ placeholders s.path := by
    constructor
    · intro h name hname
      obtain ⟨p, hp, rfl⟩ := List.mem_map.mp hname
      have hinput : s.takesInput = true := hs.input.mpr (.inl (List.ne_nil_of_mem hp))
      refine h _ (Signature.mem_request.mpr ⟨hinput, rfl⟩) (paramField false p) ?_
      rw [s.take_requestFields]
      exact List.mem_map_of_mem hp
    · intro h i hi field hfield
      obtain ⟨_, rfl⟩ := Signature.mem_request.mp hi
      rw [s.take_requestFields] at hfield
      obtain ⟨p, hp, rfl⟩ := List.mem_map.mp hfield
      exact h p.name (List.mem_map_of_mem hp)
  rw [← hfilled, ← hfields]
  exact ⟨fun h => ⟨h.filled, h.fields⟩, fun h => ⟨h.1, h.2⟩⟩

end TypeScript

/-! ### The findings -/

theorem Lint.pathFindings_eq_nil_iff (d : Document) (e : Endpoint) : pathFindings d e = [] ↔
    (∀ name ∈ placeholders e.path, name ∈ pathParameterNames d e) ∧
      ∀ name ∈ pathParameterNames d e, name ∈ placeholders e.path := by
  simp [pathFindings, List.filter_eq_nil_iff]

/-- The path parameters that are generated are those that are compared, without the empty names. -/
theorem names_pathParameters (d : Document) (e : Endpoint) :
    (Operation.ofDocument d e).pathParameters.map (·.name) =
      (pathParameterNames d e).filter (· ≠ "") := names_ofDocument d e .path

/-- What is generated keeps to the path when placeholders and path parameters are the same but for
parameters with an empty name. -/
theorem keepsToPath_ofDocument_iff (settings : Config.Generation) (d : Document) (e : Endpoint) :
    KeepsToPath e.path (Signature.ofOperation settings (.ofDocument d e)).bodyTokens
        ⟨(Signature.ofOperation settings (.ofDocument d e)).request,
          (Signature.ofOperation settings (.ofDocument d e)).response⟩
        (Operation.ofDocument d e).pathParameters.length ↔
      (∀ name ∈ placeholders e.path, name ∈ pathParameterNames d e ∧ name ≠ "") ∧
        ∀ name ∈ pathParameterNames d e, name ≠ "" → name ∈ placeholders e.path := by
  have hnames : (Signature.ofOperation settings (.ofDocument d e)).pathParams.map (·.name) =
      (pathParameterNames d e).filter (· ≠ "") := by
    rw [← names_pathParameters]
    simp [Signature.ofOperation, ParamType.ofParameter, Function.comp_def]
  have hlength : (Signature.ofOperation settings (.ofDocument d e)).pathParams.length =
      (Operation.ofDocument d e).pathParameters.length := by
    simp [Signature.ofOperation]
  have hpath : (Signature.ofOperation settings (.ofDocument d e)).path = e.path := rfl
  have hkeeps := keepsToPath_iff _ (Signature.wellFormed_ofOperation settings (.ofDocument d e))
  rw [hlength, hpath, hnames] at hkeeps
  rw [hkeeps]
  simp only [List.mem_filter, decide_eq_true_eq, and_imp]

/-- The function and the types of an operation stand at its place in the documents. -/
theorem generated_at {d : Document} {n : Nat} {e : Endpoint} (h : d.endpoints[n]? = some e)
    (config : Config) (now : String) :
    (d.generator config now).clientDocument.functions[n]? =
        some (Signature.ofOperation config.generation (.ofDocument d e)).function ∧
      (d.generator config now).typesDocument.endpoints[n]? =
        some ⟨(Signature.ofOperation config.generation (.ofDocument d e)).request,
          (Signature.ofOperation config.generation (.ofDocument d e)).response⟩ := by
  have hop : (Api.ofDocument d).operations[n]? = some (.ofDocument d e) := by
    simp [Api.ofDocument, h]
  constructor
  · simp [Generator.clientDocument, Generator.signatures, generator, hop]
  · simp [Generator.typesDocument, Generator.signatures, generator, hop]

/-- The path findings of an operation and its generated code. If no path parameter has an empty name,
nothing is found exactly when the call fills in every placeholder of the path and every path field of
the request is a placeholder. If one has, there is a finding or the code does not keep to the path. -/
theorem pathFindings_iff_keepsToPath (d : Document) (config : Config) (now : String) (n : Nat)
    (e : Endpoint) (h : d.endpoints[n]? = some e) :
    ∃ f body types, (d.generator config now).clientDocument.functions[n]? = some f ∧
      tokens (render f.body) = some body ∧
      (d.generator config now).typesDocument.endpoints[n]? = some types ∧
      ("" ∉ pathParameterNames d e →
        (pathFindings d e = [] ↔
          KeepsToPath e.path body types (Operation.ofDocument d e).pathParameters.length)) ∧
      ("" ∈ pathParameterNames d e →
        ¬(pathFindings d e = [] ∧
          KeepsToPath e.path body types (Operation.ofDocument d e).pathParameters.length)) := by
  obtain ⟨hfunction, htypes⟩ := generated_at h config now
  have hs := Signature.wellFormed_ofOperation config.generation (.ofDocument d e)
  have hkeeps := keepsToPath_ofDocument_iff config.generation d e
  refine ⟨_, _, _, hfunction, Signature.tokens_body hs, htypes, ?_, ?_⟩
  · intro hempty
    have hne : ∀ name ∈ pathParameterNames d e, name ≠ "" := by
      rintro name hname rfl
      exact hempty hname
    rw [hkeeps, pathFindings_eq_nil_iff]
    constructor
    · rintro ⟨hholes, hnames⟩
      exact ⟨fun name hname => ⟨hholes name hname, hne name (hholes name hname)⟩,
        fun name hname _ => hnames name hname⟩
    · rintro ⟨hholes, hnames⟩
      exact ⟨fun name hname => (hholes name hname).1,
        fun name hname => hnames name hname (hne name hname)⟩
  · rintro hempty ⟨hquiet, hkept⟩
    -- Silence makes a placeholder of the empty name, and no parameter of the call has that name.
    have hhole := ((pathFindings_eq_nil_iff d e).mp hquiet).2 "" hempty
    exact ((hkeeps.mp hkept).1 "" hhole).2 rfl

/-- The one operation of a path, with a path parameter of the given name. -/
def pathEndpoint (path name : String) : Endpoint :=
  let get : Document.Operation :=
    ⟨none, none, none, [⟨none, some name, some .path, true, none, none⟩], none, []⟩
  ⟨path, .get, get, ⟨[], [(.get, get)], []⟩⟩

def pathDocument (path name : String) : Document :=
  { Document.empty with paths := [(path, (pathEndpoint path name).item)] }

theorem pathDocument_keepsToPath :
    (pathDocument "/pets/{id}" "id").endpoints[0]? = some (pathEndpoint "/pets/{id}" "id") ∧
      ∃ f body types,
        ((pathDocument "/pets/{id}" "id").generator .default "now").clientDocument.functions[0]? =
          some f ∧ tokens (render f.body) = some body ∧
        ((pathDocument "/pets/{id}" "id").generator .default "now").typesDocument.endpoints[0]? =
          some types ∧ KeepsToPath "/pets/{id}" body types 1 := by
  obtain ⟨f, body, types, hfunction, hbody, htypes, hagree, _⟩ := pathFindings_iff_keepsToPath
    (pathDocument "/pets/{id}" "id") .default "now" 0 (pathEndpoint "/pets/{id}" "id") rfl
  have hquiet : pathFindings (pathDocument "/pets/{id}" "id") (pathEndpoint "/pets/{id}" "id") = [] :=
    (pathFindings_eq_nil_iff _ _).mpr (by decide +kernel)
  exact ⟨rfl, f, body, types, hfunction, hbody, htypes, (hagree (by decide +kernel)).mp hquiet⟩

/-- An empty name is compared with the empty placeholder, and nothing is found; but it is not filled
in. -/
theorem empty_placeholder_not_filled :
    (pathDocument "/a/{}" "").endpoints[0]? = some (pathEndpoint "/a/{}" "") ∧
      pathFindings (pathDocument "/a/{}" "") (pathEndpoint "/a/{}" "") = [] ∧
      ∃ f body types,
        ((pathDocument "/a/{}" "").generator .default "now").clientDocument.functions[0]? = some f ∧
        tokens (render f.body) = some body ∧
        ((pathDocument "/a/{}" "").generator .default "now").typesDocument.endpoints[0]? =
          some types ∧
        ¬KeepsToPath "/a/{}" body types
          (Operation.ofDocument (pathDocument "/a/{}" "")
            (pathEndpoint "/a/{}" "")).pathParameters.length := by
  have he : (pathDocument "/a/{}" "").endpoints[0]? = some (pathEndpoint "/a/{}" "") := rfl
  obtain ⟨hfunction, htypes⟩ := generated_at he .default "now"
  have hs := Signature.wellFormed_ofOperation Config.default.generation
    (.ofDocument (pathDocument "/a/{}" "") (pathEndpoint "/a/{}" ""))
  refine ⟨he, (pathFindings_eq_nil_iff _ _).mpr (by decide +kernel), _, _, _, hfunction,
    Signature.tokens_body hs, htypes, fun hkept => ?_⟩
  have hkeeps := keepsToPath_ofDocument_iff Config.default.generation (pathDocument "/a/{}" "")
    (pathEndpoint "/a/{}" "")
  have hhole : "" ∈ placeholders "/a/{}" := by decide +kernel
  exact ((hkeeps.mp hkept).1 "" hhole).2 rfl

end TypedClient
