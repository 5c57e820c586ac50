import TypedClient.Model.OfDocument

/-! Maps with distinct names, and catalogs of named schema objects. Under distinct names
both maps of the catalog have the names in their order, each with what its schema object
describes, and looking the properties up gives an entry for each schema object. -/

namespace TypedClient

open Json

/-! ### Maps -/

section Maps

variable {α β : Type} {map : List (String × α)}

theorem mem_of_lookup {name : String} {value : α} (h : map.lookup name = some value) :
    (name, value) ∈ map := by
  obtain ⟨before, after, rfl, _⟩ := List.lookup_eq_some_iff.mp h
  simp

theorem lookup_of_mem (h : (map.map Prod.fst).Nodup) {name : String} {value : α}
    (hmem : (name, value) ∈ map) : map.lookup name = some value := by
  obtain ⟨before, after, rfl⟩ := List.append_of_mem hmem
  refine List.lookup_eq_some_iff.mpr ⟨before, after, rfl, fun entry hentry => ?_⟩
  rw [List.map_append, List.map_cons, List.nodup_append] at h
  have hne := h.2.2 entry.1 (List.mem_map_of_mem hentry) name (by simp)
  simpa using Ne.symm hne

theorem keys_map_snd (f : α → β) (map : List (String × α)) :
    (map.map fun (name, value) => (name, f value)).map Prod.fst = map.map Prod.fst := by
  rw [List.map_map]
  rfl

theorem lookup_map_snd (f : α → β) (map : List (String × α)) (name : String) :
    (map.map fun (name, value) => (name, f value)).lookup name = (map.lookup name).map f := by
  induction map with
  | nil => rfl
  | cons entry rest ih =>
    obtain ⟨key, value⟩ := entry
    simp only [List.map_cons, List.lookup_cons, ih]
    split <;> rfl

end Maps

/-! ### Catalogs -/

namespace Model

/-- The entry that a named schema object makes. -/
def Entry.ofDocument (name : String) (s : Document.Schema) : Entry :=
  ⟨name, Schema.ofDocument s, Fields.ofDocument s⟩

namespace Catalog

/-- Filling a catalog fills its two maps alike. -/
theorem foldl_insert (named : List (String × Document.Schema)) (c : Catalog) :
    named.foldl (fun catalog (name, s) => catalog.insert name (.ofDocument s) (.ofDocument s)) c =
      ⟨(named.map fun (name, s) => (name, Schema.ofDocument s)).foldl
          (fun map (name, schema) => setEntry name schema map) c.schemas,
        (named.map fun (name, s) => (name, Fields.ofDocument s)).foldl
          (fun map (name, fields) => setEntry name fields map) c.fields⟩ := by
  induction named generalizing c with
  | nil => rfl
  | cons entry rest ih => exact ih _

section

variable {named : List (String × Document.Schema)} (h : (named.map Prod.fst).Nodup)

include h

theorem schemas_ofDocument : (Catalog.ofDocument named).schemas =
    named.map fun (name, s) => (name, Schema.ofDocument s) := by
  rw [Catalog.ofDocument, foldl_insert]
  exact mergeEntries_of_nodup ((keys_map_snd Schema.ofDocument named).symm ▸ h)

theorem fields_ofDocument : (Catalog.ofDocument named).fields =
    named.map fun (name, s) => (name, Fields.ofDocument s) := by
  rw [Catalog.ofDocument, foldl_insert]
  exact mergeEntries_of_nodup ((keys_map_snd Fields.ofDocument named).symm ▸ h)

/-- The properties of a schema are found under its name. -/
theorem fields?_ofDocument {name : String} {s : Document.Schema} (hmem : (name, s) ∈ named) :
    (Catalog.ofDocument named).fields? name = some (.ofDocument s) := by
  rw [fields?, fields_ofDocument h, lookup_map_snd, lookup_of_mem h hmem, Option.map_some]

theorem entries_ofDocument : (Catalog.ofDocument named).entries =
    named.map fun (name, s) => Entry.ofDocument name s := by
  rw [entries, schemas_ofDocument h, List.map_map]
  refine List.map_congr_left fun entry hentry => ?_
  obtain ⟨name, s⟩ := entry
  simp only [Function.comp_apply, fields?_ofDocument h hentry, Option.getD_some, Entry.ofDocument]

end

end Catalog

end Model

open Model

theorem keys_catalog (d : Document) : (Api.ofDocument d).catalog.schemas.map Prod.fst =
    d.components.schemas.map Prod.fst := by
  rw [Api.ofDocument, Catalog.schemas_ofDocument d.components.distinct, keys_map_snd]

theorem entries_catalog (d : Document) : (Api.ofDocument d).catalog.entries =
    d.components.schemas.map fun (name, s) => Entry.ofDocument name s :=
  Catalog.entries_ofDocument d.components.distinct

end TypedClient
