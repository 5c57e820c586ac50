import TypedClient.Lint.Schemas
import TypedClient.Proofs.ComposedFiles

/-! Compositions that are cut, and the notes about them. The notes count the branches that a document
lists. Properties beside these make one more branch, and it is cut without a note: this is the only
way in which the two ways to join compositions differ without a note. -/

namespace TypedClient

open Config

namespace Document

open Model Lint

/-- The number of branches of the composition that a schema object describes: those that are listed,
and the properties beside them as one more. -/
def Schema.branchCount (s : Schema) : Nat :=
  (s.allOf.getD []).length + if s.propertySchemas.isEmpty then 0 else 1

/-- Somewhere in the schema object a composition has properties beside it. -/
inductive Schema.JoinsProperties : Schema → Prop
  | here {s : Schema} (hreference : s.reference = none) (hallOf : s.allOf.getD [] ≠ [])
    (hproperties : s.propertySchemas ≠ []) : JoinsProperties s
  | part {s part : Schema} (hpart : part ∈ s.keptParts) (h : JoinsProperties part) :
    JoinsProperties s

theorem isEmpty_properties_ofDocument (s : Schema) :
    (Fields.ofDocument s).properties.isEmpty = s.propertySchemas.isEmpty := by
  rw [Fields.ofDocument, optionalProperties_eq, List.isEmpty_map, Schema.propertySchemas,
    List.isEmpty_map]

/-- The branches of a composition and what they hold, the properties beside them included. -/
theorem joins_composedBranches (branches : List Model.Schema) (fields : Fields) :
    ((composedBranches branches fields).length =
        branches.length + if fields.properties.isEmpty then 0 else 1) ∧
      ((∃ child ∈ composedBranches branches fields, child.Joins) ↔
        (∃ child ∈ branches, child.Joins) ∨ ∃ p ∈ fields.properties, p.2.Joins) := by
  unfold composedBranches
  cases h : fields.properties with
  | nil => simp
  | cons p rest =>
    refine ⟨by simp, ?_⟩
    simp only [List.isEmpty_cons, Bool.false_eq_true, if_false, List.mem_append,
      List.mem_singleton, or_and_right, exists_or, exists_eq_left, Schema.joins_iff, Shape.IsJoint,
      Shape.children, List.mem_map, exists_exists_and_eq_and, false_or]

/-- One step of the compositions in a schema object. -/
theorem joins_ofDocument (s : Schema) : (Schema.ofDocument s).Joins ↔
    (s.reference = none ∧ 2 ≤ s.branchCount) ∨
      ∃ part ∈ s.keptParts, (Schema.ofDocument part).Joins := by
  rw [ofDocument_eq, Schema.joins_iff]
  cases hs : s.reference with
  | some pointer => simp [Shape.IsJoint, Shape.children, Schema.keptParts, hs]
  | none =>
    cases hallOf : (s.allOf.getD []).isEmpty with
    | true =>
      have hcount : ¬2 ≤ s.branchCount := by
        rw [Schema.branchCount, List.isEmpty_iff.mp hallOf]
        split <;> simp
      have hjoint : ¬(Shape.ofType s.typeName s.literals (optionalItem s.items) s.properties.isSome
          (.ofDocument s)).IsJoint := by
        intro h
        obtain ⟨branches, hbranches⟩ := h.exists_branches
        exact (ofType_simple ..).2 branches hbranches
      have hitem : (optionalItem s.items).Joins ↔
          ∃ part ∈ s.items.toList, (Schema.ofDocument part).Joins := by
        cases s.items with
        | none => simp [optionalItem, Schema.joins_iff, Shape.IsJoint, Shape.children]
        | some item => simp [optionalItem]
      simp only [if_true, hjoint, hcount, and_false, false_or, children_ofType, Schema.keptParts, hs,
        hallOf, Option.isSome_none, Bool.false_eq_true, if_false]
      split <;> simp [hitem]
    | false =>
      obtain ⟨hlength, hchildren⟩ := joins_composedBranches
        ((s.allOf.getD []).map Schema.ofDocument) (Fields.ofDocument s)
      rw [List.length_map, isEmpty_properties_ofDocument] at hlength
      rw [exists_property_ofDocument] at hchildren
      simp only [Bool.false_eq_true, if_false, Shape.IsJoint, Shape.children, hlength, hchildren,
        true_and, Schema.keptParts, hs, hallOf, Option.isSome_none, List.mem_append, List.mem_map,
        exists_exists_and_eq_and, or_and_right, exists_or]
      rfl

/-- Where compositions list one branch at most, those of several branches have properties beside
it. -/
theorem joins_ofDocument_iff {s : Schema} (h : ∀ v ∈ s.visited, (v.allOf.getD []).length ≤ 1) :
    (Schema.ofDocument s).Joins ↔ s.JoinsProperties := by
  induction s using Document.Schema.byParts with
  | step s ih =>
    have hparts : ∀ part ∈ s.keptParts, (Schema.ofDocument part).Joins ↔ part.JoinsProperties := by
      intro part hpart
      have hmem := s.keptParts_subset hpart
      refine ih part hmem fun v hv => h v ?_
      rw [visited_eq]
      exact List.mem_cons_of_mem _ (List.mem_flatMap.mpr ⟨part, hmem, hv⟩)
    -- With one listed branch at most, a second one can only be made of properties.
    have hone : (s.allOf.getD []).length ≤ 1 := h s (by rw [visited_eq]; exact List.mem_cons_self)
    have hcount : 2 ≤ s.branchCount ↔ s.allOf.getD [] ≠ [] ∧ s.propertySchemas ≠ [] := by
      rw [Schema.branchCount]
      cases hallOf : s.allOf.getD [] <;> cases hproperties : s.propertySchemas <;>
        simp_all
    rw [joins_ofDocument, hcount]
    constructor
    · rintro (⟨hreference, hallOf, hproperties⟩ | ⟨part, hpart, h⟩)
      · exact .here hreference hallOf hproperties
      · exact .part hpart ((hparts part hpart).mp h)
    · intro h
      cases h with
      | here hreference hallOf hproperties => exact .inl ⟨hreference, hallOf, hproperties⟩
      | part hpart h => exact .inr ⟨_, hpart, (hparts _ hpart).mpr h⟩

/-! ### Notes -/

/-- No note says that a composition is cut. -/
def NotesNoCut (d : Document) (config : Config) : Prop :=
  ∀ f ∈ unsupportedSchema.check config d, ∀ n : Nat,
    f.message ≠ "allOf has " ++ toString n ++ " branches; only the first is used"

theorem NotesNoCut.of_nil {d : Document} {config : Config}
    (h : unsupportedSchema.check config d = []) : d.NotesNoCut config := by
  intro f hf
  rw [h] at hf
  nomatch hf

theorem length_allOf_of_notesNoCut {d : Document} {config : Config}
    (h : d.NotesNoCut (config.composing .first)) :
    ∀ v ∈ d.walk, (v.schema.allOf.getD []).length ≤ 1 := by
  intro v hv
  match hallOf : v.schema.allOf with
  | none => simp
  | some [] => simp
  | some [branch] => simp
  | some (first :: second :: rest) =>
    have hmem : "allOf has " ++ toString (first :: second :: rest).length ++
        " branches; only the first is used" ∈ schemaNotes .first v.schema := by
      simp [schemaNotes, cutComposition, hallOf]
    have hnote := List.mem_map_of_mem (f := note v.location) hmem
    refine absurd rfl (h _ (List.mem_append_left _ (List.mem_flatMap.mpr ⟨v, hv, hnote⟩)) _)

theorem spelled_subset_kept (d : Document) : d.spelled ⊆ d.kept := by
  intro s h
  rcases List.mem_append.mp h with h | h
  · obtain ⟨⟨name, root⟩, hroot, h⟩ := List.mem_flatMap.mp h
    refine List.mem_append_left _ (List.mem_append_right _ (List.mem_flatMap.mpr ⟨_, hroot, ?_⟩))
    by_cases hliterals : (Schema.ofDocument root).isLiterals
    · simp [hliterals] at h
    · simpa [hliterals] using h
  · exact List.mem_append_right _ h

/-- Without a note, the compositions of several branches that are spelled out have properties beside
them. -/
theorem joins_spelled_iff {d : Document} {config : Config}
    (h : d.NotesNoCut (config.composing .first)) :
    ∀ s ∈ d.spelled, (Schema.ofDocument s).Joins ↔ s.JoinsProperties := by
  intro s hs
  refine joins_ofDocument_iff fun v hv => ?_
  have hwalk := visited_subset_of_kept (d.spelled_subset_kept hs) hv
  rw [← map_walk_document] at hwalk
  obtain ⟨w, hw, rfl⟩ := List.mem_map.mp hwalk
  exact length_allOf_of_notesNoCut h w hw

end Document

/-- When no note says that a composition is cut, the two ways to join compositions give the same files
exactly if none that is spelled out has properties beside it. -/
theorem files_composing_iff_of_notesNoCut (d : Document) (config : Config) (now : String)
    (h : d.NotesNoCut (config.composing .first)) :
    (d.generator (config.composing .first) now).files =
        (d.generator (config.composing .intersection) now).files ↔
      ∀ s ∈ d.spelled, ¬s.JoinsProperties := by
  rw [files_composing_iff]
  constructor
  · intro hnone s hs hjoins
    exact hnone ⟨s, hs, (Document.joins_spelled_iff h s hs).mpr hjoins⟩
  · rintro hnone ⟨s, hs, hjoins⟩
    exact hnone s hs ((Document.joins_spelled_iff h s hs).mp hjoins)

/-- A pet with the keys of every animal, and the given properties. -/
def animalSchema (properties : List (String × Document.Schema)) : Document.Schema :=
  let animal := { Document.Schema.empty with
    reference := some (Document.schemaPointer ++ "Animal") }
  { Document.Schema.empty with allOf := some [animal], properties := some properties }

/-- A document with one operation, whose answer has the schema. -/
def answerDocument (schema : Document.Schema) : Document :=
  let get : Document.Operation :=
    ⟨none, none, none, [], none, [("200", ⟨none, [("application/json", ⟨some schema⟩)]⟩)]⟩
  { Document.empty with
    paths := [("/pet", ⟨[], [(.get, get)], []⟩)]
    components := Document.Components.empty.withSchemas [("Animal", .empty)] }

theorem animalSchema_files_composing :
    (answerDocument (animalSchema [])).NotesNoCut (Config.default.composing .first) ∧
      ((answerDocument (animalSchema [])).generator (Config.default.composing .first) "now").files =
        ((answerDocument (animalSchema [])).generator
          (Config.default.composing .intersection) "now").files := by
  have hquiet : (answerDocument (animalSchema [])).NotesNoCut (Config.default.composing .first) :=
    .of_nil rfl
  refine ⟨hquiet, (files_composing_iff_of_notesNoCut _ _ "now" hquiet).mpr ?_⟩
  intro s hs hjoins
  obtain rfl : s = animalSchema [] := List.mem_singleton.mp hs
  cases hjoins with
  | here _ _ hproperties => exact hproperties rfl
  | part hpart h =>
    obtain rfl := List.mem_singleton.mp hpart
    cases h with
    | here hreference _ _ => nomatch hreference
    | part hpart _ => nomatch hpart

/-- Properties beside a composition are cut without a note. -/
theorem properties_cut_without_note :
    (answerDocument (animalSchema [("name", .empty)])).NotesNoCut
        (Config.default.composing .first) ∧
      ((answerDocument (animalSchema [("name", .empty)])).generator
          (Config.default.composing .first) "now").files ≠
        ((answerDocument (animalSchema [("name", .empty)])).generator
          (Config.default.composing .intersection) "now").files := by
  refine ⟨.of_nil rfl, fun hfiles => (files_composing_iff _ _ _).mp hfiles ?_⟩
  refine ⟨animalSchema [("name", .empty)], List.mem_singleton.mpr rfl, .here ?_⟩
  exact Nat.le_refl 2

end TypedClient
