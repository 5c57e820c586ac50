import Mathlib.Data.List.Basic
import TypedClient.Generator
import TypedClient.Lint.References
import TypedClient.Proofs.Lowering

/-! References of a document on which nothing is reported. Each one that the API keeps
starts with the pointer to the schemas and goes on with a declared key. The API names the
last segment of the key instead of the key, so its references are declared exactly when
the last segments are. -/

namespace TypedClient

open Document Lint TypeScript

namespace Document

theorem eq_of_below? {pointer reference rest : String} (h : below? pointer reference = some rest) :
    reference = pointer ++ rest := by
  obtain ⟨chars, hchars, rfl⟩ := Option.map_eq_some_iff.mp h
  rw [← String.toList_inj, String.toList_append, String.toList_ofList]
  exact (List.append_eq_of_isPrefixOf?_eq_some hchars).symm

theorem takeWhile_append_slash (before after : List Char) :
    (before ++ '/' :: after).takeWhile (· != '/') = before.takeWhile (· != '/') := by
  induction before with
  | nil => simp
  | cons c before ih => simp [List.takeWhile_cons, ih]

/-- What stands in front of a slash does not matter. -/
theorem lastSegment_append (before after : List Char) :
    lastSegment (before ++ '/' :: after) = lastSegment after := by
  unfold lastSegment
  rw [List.reverse_append, List.reverse_cons, List.append_assoc, List.singleton_append,
    takeWhile_append_slash]

theorem referenceName_schemaPointer (key : String) :
    referenceName (schemaPointer ++ key) = referenceName key := by
  have hslash : schemaPointer.toList = "#/components/schemas".toList ++ ['/'] := by decide
  rw [referenceName, String.toList_append, hslash, List.append_assoc, List.singleton_append,
    lastSegment_append, ← referenceName]

/-- A name without slashes is its own last segment. -/
theorem referenceName_of_notMem {key : String} (h : '/' ∉ key.toList) : referenceName key = key := by
  have hall : ∀ c ∈ key.toList.reverse, (c != '/') = true := by
    intro c hc
    exact bne_iff_ne.mpr fun hslash => h (hslash ▸ List.mem_reverse.mp hc)
  rw [referenceName, lastSegment, ← List.append_nil key.toList.reverse,
    List.takeWhile_append_of_pos hall]
  simp

end Document

/-- Where no reference is reported, each one that a walk visits gives a declared key. -/
theorem exists_key_of_quiet {config : Config} {d : Document}
    (hquiet : unresolvedReference.check config d = []) {v : Visit} (hv : v ∈ d.walk)
    {reference : String} (hr : v.schema.reference = some reference) :
    ∃ key ∈ d.components.schemas.map Prod.fst, reference = schemaPointer ++ key := by
  have hfindings : d.walk.filterMap (schemaFinding d) = [] :=
    (List.append_eq_nil_iff.mp (List.append_eq_nil_iff.mp hquiet).1).1
  have hproblem : schemaProblem d reference = none := by
    have := List.filterMap_eq_nil_iff.mp hfindings v hv
    simpa [schemaFinding, hr] using this
  unfold schemaProblem at hproblem
  split at hproblem
  · next key hbelow =>
    split at hproblem
    · next hkey =>
      obtain ⟨entry, hentry, hname⟩ := List.any_eq_true.mp hkey
      exact ⟨key, beq_iff_eq.mp hname ▸ List.mem_map_of_mem hentry, eq_of_below? hbelow⟩
    · nomatch hproblem
  · nomatch hproblem

/-- The types document declares the schemas of the catalog. -/
theorem declared_schemas (g : Generator) :
    g.typesDocument.schemas.map Declaration.name = g.api.catalog.schemas.map Prod.fst := by
  have hname : ∀ compose entry, (Declaration.ofEntry compose entry).name = entry.name := by
    intro compose entry
    unfold Declaration.ofEntry
    split <;> rfl
  simp [Generator.typesDocument, Model.Catalog.entries, Function.comp_def, hname]

/-- Where no reference is reported, those of the API are the last segments of declared keys. -/
theorem mem_references_of_quiet {config : Config} {d : Document}
    (hquiet : unresolvedReference.check config d = []) {name : String} :
    name ∈ (Api.ofDocument d).references ↔ ∃ key ∈ d.components.schemas.map Prod.fst,
      d.Keeps (schemaPointer ++ key) ∧ referenceName key = name := by
  rw [mem_references_api]
  constructor
  · rintro ⟨pointer, hkeeps, rfl⟩
    obtain ⟨v, hv, hr⟩ := hkeeps.visited
    obtain ⟨key, hkey, rfl⟩ := exists_key_of_quiet hquiet hv hr
    exact ⟨key, hkey, hkeeps, (referenceName_schemaPointer key).symm⟩
  · rintro ⟨key, _, hkeeps, rfl⟩
    exact ⟨_, hkeeps, referenceName_schemaPointer key⟩

/-- Without slashes in the keys, every reference of the API names a declared schema. -/
theorem reference_declared {config : Config} {d : Document}
    (hquiet : unresolvedReference.check config d = [])
    (hkeys : ∀ key ∈ d.components.schemas.map Prod.fst, '/' ∉ key.toList) :
    ∀ name ∈ (Api.ofDocument d).references, name ∈ (Api.ofDocument d).catalog.schemas.map Prod.fst := by
  intro name hname
  obtain ⟨key, hkey, _, rfl⟩ := (mem_references_of_quiet hquiet).mp hname
  rw [referenceName_of_notMem (hkeys key hkey), keys_catalog]
  exact hkey

/-- The references of the API of a document without findings are declared exactly when the last
segment of each key that a kept reference gives is a key as well. -/
theorem references_declared_iff (g : Generator) (d : Document) (hapi : g.api = .ofDocument d)
    (hquiet : unresolvedReference.check g.config d = []) :
    (∀ name ∈ g.api.references, name ∈ g.api.catalog.schemas.map Prod.fst ∧
        name ∈ g.typesDocument.schemas.map Declaration.name) ↔
      ∀ key, d.Keeps (schemaPointer ++ key) →
        referenceName key ∈ d.components.schemas.map Prod.fst := by
  rw [declared_schemas, hapi, keys_catalog]
  simp only [and_self]
  constructor
  · intro h key hkeeps
    exact h _ (mem_references_api.mpr ⟨_, hkeeps, referenceName_schemaPointer key⟩)
  · intro h name hname
    obtain ⟨key, _, hkeeps, rfl⟩ := (mem_references_of_quiet hquiet).mp hname
    exact h key hkeeps

/-- A schema object that is a reference. -/
def referenceTo (pointer : String) : Document.Schema :=
  { Document.Schema.empty with reference := some pointer }

/-- A document with a shared schema under the given key, and a response that refers to it. -/
def petDocument (key : String) : Document :=
  let content := [("application/json", ⟨some (referenceTo (schemaPointer ++ key))⟩)]
  let list : Document.Operation := ⟨none, none, none, [], none, [("200", ⟨none, content⟩)]⟩
  { Document.empty with
    paths := [("/pets", ⟨[], [(.get, list)], []⟩)]
    components := Components.empty.withSchemas [(key, .empty)] }

def petDocumentGenerator : Generator :=
  { api := .ofDocument (petDocument "Pet")
    counts := .ofApi (.ofDocument (petDocument "Pet"))
    config := .default
    generatedAt := none }

theorem petDocument_references_declared_iff :
    petDocumentGenerator.api = .ofDocument (petDocument "Pet") ∧
      unresolvedReference.check petDocumentGenerator.config (petDocument "Pet") = [] ∧
      ((∀ name ∈ petDocumentGenerator.api.references,
          name ∈ petDocumentGenerator.api.catalog.schemas.map Prod.fst ∧
            name ∈ petDocumentGenerator.typesDocument.schemas.map Declaration.name) ↔
        ∀ key, (petDocument "Pet").Keeps (schemaPointer ++ key) →
          referenceName key ∈ (petDocument "Pet").components.schemas.map Prod.fst) :=
  ⟨rfl, rfl, references_declared_iff petDocumentGenerator (petDocument "Pet") rfl rfl⟩

/-- The key of the schema holds a slash, nothing is reported, and the API refers to a schema that it
does not have. -/
theorem slashed_reference_not_declared :
    unresolvedReference.check .default (petDocument "store/Pet") = [] ∧
      "Pet" ∈ (Api.ofDocument (petDocument "store/Pet")).references ∧
      "Pet" ∉ (Api.ofDocument (petDocument "store/Pet")).catalog.schemas.map Prod.fst := by
  refine ⟨rfl, ?_, ?_⟩
  · decide
  · decide

end TypedClient
