import Mathlib.Data.List.Forall2
import Mathlib.Logic.Relation
import TypedClient.Proofs.Lowering

/-! What holds of the API of every document. At no depth is there an enumeration without values or a
composition without branches; parameters have names, and those in the path are required; both maps of
the catalog have the names of the schemas of the document, in order, and the fields under a name agree
with the schema under it wherever both show the same properties. -/

namespace TypedClient

open Document

namespace Model

/-! ### Schemas -/

/-- The second schema is the first one, or is inside of it at some depth. -/
def Schema.Holds : Schema → Schema → Prop :=
  Relation.ReflTransGen fun s child => child ∈ s.shape.children

/-- A shape that lists values or branches lists some. -/
def Shape.IsGiven (shape : Shape) : Prop := shape ≠ .literals [] ∧ shape ≠ .composed []

/-- No list of values or branches is empty, at any depth. -/
def Schema.IsFilled (s : Schema) : Prop := ∀ t, s.Holds t → t.shape.IsGiven

theorem Schema.IsFilled.of_children {s : Schema} (hshape : s.shape.IsGiven)
    (hchildren : ∀ child ∈ s.shape.children, child.IsFilled) : s.IsFilled := by
  intro t ht
  rcases Relation.ReflTransGen.cases_head ht with rfl | ⟨child, hchild, ht⟩
  · exact hshape
  · exact hchildren child hchild t ht

theorem isFilled_unknown (description : Option String) :
    (Schema.mk .unknown description).IsFilled :=
  .of_children ⟨nofun, nofun⟩ fun _ h => nomatch h

/-- What a type name asks for never lists nothing: without values a string is any string. -/
theorem isGiven_ofType (type : Option String) (literals : Option (List Json.Value)) (item : Schema)
    (declared : Bool) (fields : Fields) : (Shape.ofType type literals item declared fields).IsGiven := by
  refine ⟨?_, (ofType_simple type literals item declared fields).2 []⟩
  fun_cases Shape.ofType type literals item declared fields <;> simp

/-- The schemas of some schema objects are filled. -/
def AreFilled (parts : List Document.Schema) : Prop := ∀ part ∈ parts, (Schema.ofDocument part).IsFilled

theorem AreFilled.described {parts : List Document.Schema} (h : AreFilled parts) {child : Schema}
    (hchild : child ∈ parts.map Schema.ofDocument) : child.IsFilled := by
  obtain ⟨part, hpart, rfl⟩ := List.mem_map.mp hchild
  exact h part hpart

theorem AreFilled.properties {s : Document.Schema} (h : AreFilled s.propertySchemas) {child : Schema}
    (hchild : child ∈ (Fields.ofDocument s).properties.map Prod.snd) : child.IsFilled := by
  rw [snd_properties_ofDocument] at hchild
  exact h.described hchild

theorem isFilled_of_mem_ofType {s : Document.Schema} (hitems : AreFilled s.items.toList)
    (hproperties : AreFilled s.propertySchemas) {child : Schema}
    (h : child ∈ (Shape.ofType s.typeName s.literals (optionalItem s.items) s.properties.isSome
      (.ofDocument s)).children) : child.IsFilled := by
  rw [children_ofType] at h
  split at h
  · obtain rfl := List.mem_singleton.mp h
    cases hitem : s.items with
    | none => exact isFilled_unknown none
    | some item => exact hitems item (Option.mem_toList.mpr hitem)
  · exact hproperties.described h
  · nomatch h
  · exact hproperties.described h

theorem isFilled_of_mem_composed {s : Document.Schema} (hbranches : AreFilled (s.allOf.getD []))
    (hproperties : AreFilled s.propertySchemas) {child : Schema}
    (h : child ∈ composedBranches ((s.allOf.getD []).map Schema.ofDocument) (.ofDocument s)) :
    child.IsFilled := by
  rcases List.mem_append.mp h with h | h
  · exact hbranches.described h
  · split at h
    · nomatch h
    · obtain rfl := List.mem_singleton.mp h
      exact .of_children ⟨nofun, nofun⟩ fun _ => hproperties.properties

/-- The induction is over the parts of the schema object. -/
theorem isFilled_ofDocument (s : Document.Schema) : (Schema.ofDocument s).IsFilled := by
  induction s using Document.Schema.byParts with
  | step s ih =>
    have hitems : AreFilled s.items.toList := fun part h => ih part (by simp_all [Schema.parts])
    have hproperties : AreFilled s.propertySchemas := fun part h => ih part (by simp [Schema.parts, h])
    have hbranches : AreFilled (s.allOf.getD []) := fun part h => ih part (by simp [Schema.parts, h])
    rcases shape_ofDocument s with ⟨pointer, hshape⟩ | hshape | ⟨hgiven, hshape⟩
    · exact .of_children (by simp [hshape, Shape.IsGiven]) (by simp [hshape, Shape.children])
    · refine .of_children (hshape ▸ isGiven_ofType ..) fun child h => ?_
      rw [hshape] at h
      exact isFilled_of_mem_ofType hitems hproperties h
    · refine .of_children ?_ fun child h => ?_
      · simp [hshape, Shape.IsGiven, composedBranches, hgiven]
      · rw [hshape] at h
        exact isFilled_of_mem_composed hbranches hproperties h

/-! ### Parameters -/

/-- A parameter has a name, and it is required in the path. -/
structure Parameter.IsSound (p : Parameter) : Prop where
  named : p.name ≠ ""
  required : p.place = .path → p.required = true

theorem isSound_of_lowered {location : String} {p : Document.Parameter} {q : Parameter}
    (h : lowerParameter location p = some (.inl q)) : q.IsSound := by
  unfold lowerParameter at h
  split at h
  · cases h
  · next name _ =>
    split at h
    · cases h
    · next hname =>
      have hname : name ≠ "" := by simpa using hname
      split at h
      · obtain rfl := Sum.inl.inj (Option.some.inj h)
        exact ⟨hname, fun _ => by simp [Parameter.ofDocument]⟩
      · obtain rfl := Sum.inl.inj (Option.some.inj h)
        exact ⟨hname, by simp [Parameter.ofDocument]⟩
      · cases h

theorem isSound_ofDocument {d : Document} {e : Endpoint} {p : Parameter}
    (h : p ∈ (Operation.ofDocument d e).parameters) : p.IsSound := by
  obtain ⟨lowered, hlowered, hp⟩ := List.mem_filterMap.mp h
  obtain ⟨q, _, hq⟩ := List.mem_filterMap.mp hlowered
  obtain rfl := Sum.getLeft?_eq_some_iff.mp hp
  exact isSound_of_lowered hq

/-! ### Entries -/

/-- The fields of an entry are what its schema shows of the properties of the schema object: the whole
object, or the last branch of a composition that has properties beside it. -/
structure Entry.Agrees (s : Document.Schema) (entry : Entry) : Prop where
  object : ∀ properties required, entry.schema.shape = .object properties required →
    entry.fields = ⟨properties, required⟩
  composed : ∀ branches, entry.schema.shape = .composed branches → s.properties.getD [] ≠ [] →
    branches.getLast? = some (.mk (.object entry.fields.properties entry.fields.required) none)

theorem fields_of_ofType_eq_object {type : Option String} {literals : Option (List Json.Value)}
    {item : Schema} {declared : Bool} {fields : Fields} {properties : List (String × Schema)}
    {required : List String} : Shape.ofType type literals item declared fields =
      .object properties required → fields = ⟨properties, required⟩ := by
  obtain ⟨shown, needed⟩ := fields
  fun_cases Shape.ofType type literals item declared ⟨shown, needed⟩ <;> simp

theorem agrees_ofDocument (name : String) (s : Document.Schema) :
    (Entry.ofDocument name s).Agrees s := by
  constructor
  · intro properties required h
    have h : (Schema.ofDocument s).shape = .object properties required := h
    rcases shape_ofDocument s with ⟨pointer, hshape⟩ | hshape | ⟨_, hshape⟩
    · nomatch hshape.symm.trans h
    · exact fields_of_ofType_eq_object (hshape.symm.trans h)
    · nomatch hshape.symm.trans h
  · intro branches h hproperties
    have h : (Schema.ofDocument s).shape = .composed branches := h
    rcases shape_ofDocument s with ⟨pointer, hshape⟩ | hshape | ⟨_, hshape⟩
    · nomatch hshape.symm.trans h
    · exact absurd (hshape.symm.trans h) ((ofType_simple ..).2 _)
    · obtain rfl := Shape.composed.inj (hshape.symm.trans h)
      have hgiven : (Fields.ofDocument s).properties.isEmpty = false := by
        simpa [Fields.ofDocument, optionalProperties_eq] using hproperties
      simp [composedBranches, hgiven, Entry.ofDocument]

end Model

open Model

/-- What holds of the API of a document. -/
structure Api.WellFormed (d : Document) (api : Api) : Prop where
  /-- No enumeration lacks values and no composition branches, in the schemas and the fields of the
  catalog and in the operations. -/
  filled : ∀ s ∈ api.schemas, s.IsFilled
  sound : ∀ op ∈ api.operations, ∀ p ∈ op.parameters, p.IsSound
  /-- Both maps of the catalog have the keys of the schemas of the document, in order. -/
  keys : api.catalog.schemas.map Prod.fst = d.components.schemas.map Prod.fst ∧
    api.catalog.fields.map Prod.fst = d.components.schemas.map Prod.fst
  /-- The fields that are found under the name of a schema agree with it. -/
  agrees : List.Forall₂
    (fun (name, s) entry => api.catalog.fields? name = some entry.fields ∧ entry.Agrees s)
    d.components.schemas api.catalog.entries

theorem wellFormed_ofDocument (d : Document) : (Api.ofDocument d).WellFormed d where
  filled s hs := by
    rw [schemas_ofDocument] at hs
    obtain ⟨part, _, rfl⟩ := List.mem_map.mp hs
    exact isFilled_ofDocument part
  sound op hop p hp := by
    obtain ⟨e, _, rfl⟩ := List.mem_map.mp hop
    exact isSound_ofDocument hp
  keys := by
    refine ⟨keys_catalog d, ?_⟩
    rw [Api.ofDocument, Catalog.fields_ofDocument d.components.distinct, keys_map_snd]
  agrees := by
    rw [entries_catalog, List.forall₂_map_right_iff]
    exact List.forall₂_same.mpr fun entry hentry =>
      ⟨Catalog.fields?_ofDocument d.components.distinct hentry, agrees_ofDocument entry.1 entry.2⟩

end TypedClient
