import TypedClient.Document.Reader
import TypedClient.Proofs.Validation

/-! The names that the types document exports: one for each schema, then those of each
operation. Where the lints find nothing worse than infos, the names of operations are
apart from each other, for requests and responses end differently. They are not held
against the names of schemas, so these are all that can clash with them. -/

namespace TypedClient

open Diagnostic Document Lint TypeScript

namespace TypeScript

/-- The types that a module exports. -/
def Module.exportedTypes (m : Module) : List String :=
  m.body.filterMap fun element =>
    match element with
    | .type declaration => some declaration.name
    | _ => none

theorem exportedTypes_contents (t : TypesDocument) : t.contents.exportedTypes =
    t.schemas.map Declaration.name ++ t.endpoints.flatMap EndpointTypes.declared := by
  rw [Module.exportedTypes, TypesDocument.contents, List.filterMap_append, List.filterMap_append,
    List.filterMap_map, List.filterMap_flatMap, List.append_assoc, ← List.filterMap_eq_map]
  rfl

namespace Signature

/-- The types that are declared for an operation. -/
def typeNames (s : Signature) : List String :=
  (if s.takesInput then [s.requestName] else []) ++ [s.responseName]

theorem mem_typeNames {s : Signature} {name : String} : name ∈ s.typeNames ↔
    name = s.responseName ∨ s.takesInput = true ∧ name = s.requestName := by
  unfold typeNames
  cases s.takesInput <;> simp [or_comm]

theorem request_ne_response (a b : String) : a ++ "Request" ≠ b ++ "Response" := by
  intro h
  have hlast := congrArg (fun s => s.toList.getLast?) h
  simp at hlast

theorem nodup_typeNames (s : Signature) : s.typeNames.Nodup := by
  have hne : s.requestName ≠ s.responseName := request_ne_response s.typeName s.typeName
  unfold typeNames
  cases s.takesInput <;> simp [hne]

/-- Operations with different names have no type name in common. -/
theorem disjoint_typeNames {s t : Signature} (h : s.typeName ≠ t.typeName) :
    s.typeNames.Disjoint t.typeNames := by
  intro name hs ht
  rcases mem_typeNames.mp hs with rfl | ⟨_, rfl⟩ <;> rcases mem_typeNames.mp ht with ht | ⟨_, ht⟩
  · exact h ((String.append_left_inj "Response").mp ht)
  · exact request_ne_response _ _ ht.symm
  · exact request_ne_response _ _ ht
  · exact h ((String.append_left_inj "Request").mp ht)

end Signature

end TypeScript

theorem signatures_ofDocument {g : Generator} {d : Document} (hapi : g.api = .ofDocument d) :
    g.signatures = d.endpoints.map (d.signature g.config.generation) := by
  rw [Generator.signatures, hapi, Api.ofDocument, List.map_map]
  rfl

theorem exportedTypes_typesDocument {g : Generator} {d : Document} (hapi : g.api = .ofDocument d) :
    g.typesDocument.contents.exportedTypes =
      d.components.schemas.map Prod.fst ++ g.signatures.flatMap Signature.typeNames := by
  have hdeclared : ∀ s : Signature, EndpointTypes.declared ⟨s.request, s.response⟩ = s.typeNames :=
    Signature.declared_types
  rw [exportedTypes_contents, declared_schemas, hapi, keys_catalog, Generator.typesDocument,
    List.flatMap_map]
  simp only [hdeclared]

/-- Where no names are shared, the types of the operations are all different. -/
theorem nodup_operationTypes {g : Generator} {d : Document} (hapi : g.api = .ofDocument d)
    (hquiet : duplicateOperationId.check g.config d = []) :
    (g.signatures.flatMap Signature.typeNames).Nodup := by
  have hnames := List.pairwise_map.mp (duplicateOperationId_quiet_iff.mp hquiet)
  refine List.nodup_flatMap.mpr ⟨fun s _ => s.nodup_typeNames, ?_⟩
  rw [signatures_ofDocument hapi, List.pairwise_map]
  refine hnames.imp fun {e f} hne => Signature.disjoint_typeNames fun h => hne ?_
  exact responseName_inj.mp (congrArg (· ++ "Response") h)

/-- Where the lints find nothing worse than infos, the exported names are all different exactly when
no schema is called like the response of an operation, or like the request of one that has input. -/
theorem exportedTypes_nodup_iff (g : Generator) (d : Document) (hapi : g.api = .ofDocument d)
    (hquiet : ∀ f ∈ runAll all g.config d, f.severity = .info) :
    g.typesDocument.contents.exportedTypes.Nodup ↔
      ∀ key ∈ d.components.schemas.map Prod.fst, ∀ s ∈ g.signatures,
        key ≠ s.responseName ∧ (s.takesInput = true → key ≠ s.requestName) := by
  have htypes := nodup_operationTypes hapi (duplicateOperationId_of_infos hquiet)
  rw [exportedTypes_typesDocument hapi, List.nodup_append]
  constructor
  · rintro ⟨_, _, hne⟩ key hkey s hs
    have happart : ∀ name ∈ s.typeNames, key ≠ name := fun name hname =>
      hne key hkey name (List.mem_flatMap.mpr ⟨s, hs, hname⟩)
    exact ⟨happart _ (Signature.mem_typeNames.mpr (.inl rfl)),
      fun hinput => happart _ (Signature.mem_typeNames.mpr (.inr ⟨hinput, rfl⟩))⟩
  · intro h
    refine ⟨d.components.distinct, htypes, fun key hkey name hname => ?_⟩
    obtain ⟨s, hs, hname⟩ := List.mem_flatMap.mp hname
    obtain ⟨hresponse, hrequest⟩ := h key hkey s hs
    rcases Signature.mem_typeNames.mp hname with rfl | ⟨hinput, rfl⟩
    · exact hresponse
    · exact hrequest hinput

/-- The text of a document with a schema under the given key and an operation that takes a body. -/
def namedText (key : String) : String :=
  r#"{"paths": {"/pets": {"post": {"requestBody": {}}}}, "# ++
    r#""components": {"schemas": {""# ++ key ++ r#"": {}}}}"#

def namedDocument (key : String) : Document :=
  { Document.empty with
    paths := [("/pets", ⟨[], [(.post, ⟨none, none, none, [], some ⟨none, false, []⟩, []⟩)], []⟩)]
    components := Document.Components.empty.withSchemas [(key, .empty)] }

theorem namedDocument_exportedTypes_nodup_iff :
    Document.ofText (namedText "Pet") = .ok (namedDocument "Pet") ∧
      (runAll all .default (namedDocument "Pet")).length = 1 ∧
      (∀ f ∈ runAll all .default (namedDocument "Pet"), f.severity = .info) ∧
      ((Generator.ofDocument .default (namedDocument "Pet")).typesDocument.contents.exportedTypes.Nodup ↔
        ∀ key ∈ (namedDocument "Pet").components.schemas.map Prod.fst,
          ∀ s ∈ (Generator.ofDocument .default (namedDocument "Pet")).signatures,
            key ≠ s.responseName ∧ (s.takesInput = true → key ≠ s.requestName)) := by
  have hread : Document.ofText (namedText "Pet") = .ok (namedDocument "Pet") := rfl
  have hquiet : ∀ f ∈ runAll all .default (namedDocument "Pet"), f.severity = .info := by
    decide +kernel
  refine ⟨hread, ?_, hquiet, exportedTypes_nodup_iff
    (.ofDocument .default (namedDocument "Pet")) (namedDocument "Pet") rfl hquiet⟩
  decide +kernel

/-- A schema called like a response: nothing worse than an info is reported, and the name is
exported twice. -/
theorem exportedTypes_repeated :
    Document.ofText (namedText "PostPetsResponse") = .ok (namedDocument "PostPetsResponse") ∧
      (∀ f ∈ runAll all .default (namedDocument "PostPetsResponse"), f.severity = .info) ∧
      ¬(Generator.ofDocument .default
        (namedDocument "PostPetsResponse")).typesDocument.contents.exportedTypes.Nodup := by
  refine ⟨rfl, ?_, ?_⟩
  · decide +kernel
  · rw [exportedTypes_typesDocument rfl]
    decide +kernel

end TypedClient
