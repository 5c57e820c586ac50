import TypedClient.Proofs.Casing
import TypedClient.Proofs.ClientClosure
import TypedClient.Proofs.ReferenceClosure

/-! The names that generated code declares. Reserved words start with a lower case letter
and safe names keep clear of them, so that type names need no escape and an escaped name
never meets another one. A name that comes from an operation is an identifier when the
operation's identifier leads with a letter; the name of a schema is its key as it is. -/

namespace TypedClient

open Text Route

/-- The first letter or digit of the text is a letter. -/
def Text.leadsWithLetter (s : String) : Bool := (initial s).any Char.isAlpha

theorem Route.leadsWithLetter_derivedId (m : Method) (path : String) :
    leadsWithLetter (derivedId m path) = true := by
  cases m <;> simp [leadsWithLetter, initial, derivedId, Method.lower]

namespace TypeScript

/-! ### Reserved words -/

theorem isLower_of_isReserved {name : String} (h : isReserved name = true) :
    name.toList.head?.any Char.isLower = true := by
  have hwords : ∀ word ∈ reservedWords, word.toList.head?.any Char.isLower = true := by decide
  exact hwords name (by simpa [isReserved] using h)

theorem isReserved_eq_false {name : String} (h : name.toList.head?.any Char.isLower = false) :
    isReserved name = false := by
  by_contra hreserved
  simp [isLower_of_isReserved (by simpa using hreserved)] at h

theorem isReserved_safeName (name : String) : isReserved (safeName name) = false := by
  unfold safeName
  split
  · exact isReserved_eq_false (by simp)
  · next h => simpa using h

/-- Names without an underscore in front stay apart when reserved words are escaped. -/
theorem safeName_inj {a b : String} (ha : a.toList.head? ≠ some '_') (hb : b.toList.head? ≠ some '_') :
    safeName a = safeName b ↔ a = b := by
  refine ⟨fun h => ?_, congrArg safeName⟩
  unfold safeName at h
  split at h <;> split at h
  · exact (String.append_right_inj "_").mp h
  · exact absurd (by simp [← h]) hb
  · exact absurd (by simp [h]) ha
  · exact h

theorem typeName_eq_pascalCase (id : String) : typeName id = pascalCase id := by
  have hhead : (pascalCase id).toList.head?.any Char.isLower = false := by
    rw [head?_pascalCase]
    cases initial id <;> simp
  rw [typeName, safeName, if_neg (by simp [isReserved_eq_false hhead])]

theorem head?_camelCase_ne (id : String) : (camelCase id).toList.head? ≠ some '_' := by
  rw [head?_camelCase]
  cases h : initial id with
  | none => simp
  | some c =>
    intro hc
    have hword := isAlphanum_toLower (isAlphanum_initial h)
    rw [Option.some.inj hc] at hword
    exact absurd hword (by decide)

theorem functionName_inj {a b : String} :
    functionName a = functionName b ↔ camelCase a = camelCase b :=
  safeName_inj (head?_camelCase_ne a) (head?_camelCase_ne b)

/-! ### Identifiers -/

theorem IsCodeWord.isIdentifier {s : String} (h : IsCodeWord s)
    (hstart : s.toList.head?.any startsIdentifier = true) : isIdentifier s = true := by
  obtain ⟨_, hall⟩ := h
  unfold TypeScript.isIdentifier
  cases hs : s.toList with
  | nil => simp [hs] at hstart
  | cons c rest =>
    rw [hs] at hstart hall
    simp only [List.all_cons, Bool.and_eq_true] at hall
    simpa [isIdentifierChars, hall.2] using hstart

variable {op : Model.Operation}

theorem isIdentifier_functionName (h : leadsWithLetter op.id = true) :
    isIdentifier (functionName op.id) = true := by
  refine (isCodeWord_functionName op).isIdentifier ?_
  unfold functionName safeName
  split
  · simp [startsIdentifier]
  · rw [head?_camelCase]
    cases hc : initial op.id with
    | none => simp [leadsWithLetter, hc] at h
    | some c =>
      have hletter : c.isAlpha = true := by simpa [leadsWithLetter, hc] using h
      simp [startsIdentifier, hletter]

theorem isIdentifier_typeName (h : leadsWithLetter op.id = true) (suffix : String)
    (hsuffix : suffix.toList.all continuesIdentifier = true) :
    isIdentifier (typeName op.id ++ suffix) = true := by
  refine ((isCodeWord_typeName op).append hsuffix).isIdentifier ?_
  have hhead := head?_pascalCase op.id
  cases hc : initial op.id with
  | none => simp [leadsWithLetter, hc] at h
  | some c =>
    have hletter : c.isAlpha = true := by simpa [leadsWithLetter, hc] using h
    rw [hc] at hhead
    simp [typeName_eq_pascalCase, List.head?_append, hhead, startsIdentifier, hletter]

/-- No reserved word names the function of an operation. All names that are declared for the
operation are identifiers when its own identifier is derived, or leads with a letter. -/
structure NamedWell (op : Model.Operation) (e : EndpointTypes) (f : Function) : Prop where
  reserved : isReserved f.name = false
  function : op.declaredId = none ∨ leadsWithLetter op.id = true → isIdentifier f.name = true
  types : op.declaredId = none ∨ leadsWithLetter op.id = true →
    ∀ name ∈ e.declared, isIdentifier name = true

theorem leadsWithLetter_id (h : op.declaredId = none ∨ leadsWithLetter op.id = true) :
    leadsWithLetter op.id = true := by
  rcases h with h | h
  · rw [Model.Operation.id, h]
    exact leadsWithLetter_derivedId op.method op.path
  · exact h

theorem requestName_ofOperation (settings : Config.Generation) (op : Model.Operation) :
    (Signature.ofOperation settings op).requestName = typeName op.id ++ "Request" := by
  simp only [Signature.requestName, Signature.ofOperation]

theorem responseName_ofOperation (settings : Config.Generation) (op : Model.Operation) :
    (Signature.ofOperation settings op).responseName = typeName op.id ++ "Response" := by
  simp only [Signature.responseName, Signature.ofOperation]

theorem functionName_ofOperation (settings : Config.Generation) (op : Model.Operation) :
    (Signature.ofOperation settings op).functionName = functionName op.id := by
  simp only [Signature.ofOperation]

theorem namedWell_ofOperation (settings : Config.Generation) (op : Model.Operation) :
    NamedWell op ⟨(Signature.ofOperation settings op).request,
      (Signature.ofOperation settings op).response⟩ (Signature.ofOperation settings op).function := by
  have hfunction : (Signature.ofOperation settings op).function.name = functionName op.id := by
    rw [Signature.function, functionName_ofOperation]
  constructor
  case reserved =>
    rw [hfunction, functionName]
    exact isReserved_safeName _
  case function =>
    rw [hfunction]
    exact fun h => isIdentifier_functionName (leadsWithLetter_id h)
  case types =>
    intro h name hname
    rw [Signature.declared_types, requestName_ofOperation, responseName_ofOperation, List.mem_append,
      List.mem_singleton] at hname
    rcases hname with hname | rfl
    · split at hname
      · rw [List.mem_singleton.mp hname]
        exact isIdentifier_typeName (leadsWithLetter_id h) "Request" (by decide)
      · exact absurd hname List.not_mem_nil
    · exact isIdentifier_typeName (leadsWithLetter_id h) "Response" (by decide)

end TypeScript

/-- The generator of a document that tells no time. -/
def Generator.ofDocument (config : Config) (d : Document) : Generator :=
  { api := .ofDocument d
    counts := .ofApi (.ofDocument d)
    config := config
    generatedAt := none }

open TypeScript

/-- A schema is declared under its key as it is, whatever the key; and the names of the operations
are as they should be. -/
theorem generated_names (g : Generator) (d : Document) (hapi : g.api = .ofDocument d) :
    g.typesDocument.schemas.map Declaration.name = d.components.schemas.map Prod.fst ∧
      ∀ (n : Nat) (op : Model.Operation), g.api.operations[n]? = some op →
        ∃ e f, g.typesDocument.endpoints[n]? = some e ∧ g.clientDocument.functions[n]? = some f ∧
          NamedWell op e f := by
  refine ⟨by rw [declared_schemas, hapi, keys_catalog], fun n op hop => ?_⟩
  refine ⟨_, _, ?_, ?_, namedWell_ofOperation g.config.generation op⟩
  · simp [Generator.typesDocument, Generator.signatures, hop]
  · simp [Generator.clientDocument, Generator.signatures, hop]

theorem petDocument_generated_names :
    petDocumentGenerator.api = .ofDocument (petDocument "Pet") ∧
      petDocumentGenerator.typesDocument.schemas.map Declaration.name =
        (petDocument "Pet").components.schemas.map Prod.fst ∧
      ∀ (n : Nat) (op : Model.Operation), petDocumentGenerator.api.operations[n]? = some op →
        ∃ e f, petDocumentGenerator.typesDocument.endpoints[n]? = some e ∧
          petDocumentGenerator.clientDocument.functions[n]? = some f ∧ NamedWell op e f :=
  ⟨rfl, generated_names petDocumentGenerator (petDocument "Pet") rfl⟩

/-- A document of two operations with the given identifiers. -/
def idsDocument (first second : String) : Document :=
  { Document.empty with
    paths := [("/a", ⟨[], [(.get, ⟨some first, none, none, [], none, []⟩)], []⟩),
      ("/b", ⟨[], [(.get, ⟨some second, none, none, [], none, []⟩)], []⟩)] }

/-- The key of a schema may be no identifier, and the schema is declared under it all the same; and a
function may be named by an identifier that leads with a digit. -/
theorem declared_not_isIdentifier :
    ("pet-list" ∈ (Generator.ofDocument .default (petDocument "pet-list")).typesDocument.schemas.map
        Declaration.name ∧ isIdentifier "pet-list" = false) ∧
      "3dModel" ∈ (Generator.ofDocument .default
        (idsDocument "3d_model" "list")).clientDocument.functions.map Function.name ∧
      isIdentifier "3dModel" = false := by
  decide +kernel

end TypedClient
