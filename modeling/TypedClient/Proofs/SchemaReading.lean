import Mathlib.Tactic.Choose
import TypedClient.Proofs.TypeMeaning

/-! The type expression of a schema, read back. For schemas whose references are
identifiers it says what is meant exactly when no intersection has a union among
its parts; when compositions are cut to their first branch it always does. -/

namespace TypedClient.TypeScript

open Model Config

variable {compose : Compose}

theorem reads_scalarType (kind : Scalar) :
    ∃ read, Reads (scalarType kind) (.single read) ∧
      Says (.single read) (scalarMeaning kind) true := by
  cases kind with
  | string => exact ⟨_, reads_name "string" (by decide),
      says_single rfl rfl rfl rfl (iff_of_true rfl rfl)⟩
  | number => exact ⟨_, reads_name "number" (by decide),
      says_single rfl rfl rfl rfl (iff_of_true rfl rfl)⟩
  | integer => exact ⟨_, reads_name "number" (by decide),
      says_single rfl rfl rfl rfl (iff_of_true rfl rfl)⟩
  | boolean => exact ⟨_, reads_name "boolean" (by decide),
      says_single rfl rfl rfl rfl (iff_of_true rfl rfl)⟩

/-- What is read from the type expressions of schemas, each with what it says. -/
def ReadsAs (compose : Compose) (read : Schema → Alternatives) (s : Schema) : Prop :=
  Reads (schemaType compose s) (read s) ∧
    Says (read s) (schemaMeaning compose s) (schemaGrouped compose s)

theorem reads_fieldTypes {read : Schema → Alternatives} (required : List String)
    {properties : List (String × Schema)} (h : ∀ p ∈ properties, ReadsAs compose read p.2) :
    List.Forall₂ FieldReads (fieldTypes compose required properties)
      (properties.map fun (name, schema) =>
        (name, !required.contains name, (read schema).shape)) := by
  rw [fieldTypes_eq, List.forall₂_map_left_iff, List.forall₂_map_right_iff, List.forall₂_same]
  exact fun p hp => ⟨_, (h p hp).1, rfl⟩

theorem says_object {read : Schema → Alternatives} (required : List String)
    {properties : List (String × Schema)} (h : ∀ p ∈ properties, ReadsAs compose read p.2) :
    Says (.single (.object (properties.map fun (name, schema) =>
        (name, !required.contains name, (read schema).shape))))
      (.object (fieldMeanings compose required properties))
      (propertiesGrouped compose properties) := by
  refine says_single rfl rfl rfl rfl ?_
  rw [TypeShape.object.injEq, fieldMeanings_eq, List.map_inj_left, propertiesGrouped_iff]
  refine forall₂_congr fun p hp => ?_
  rw [← (h p hp).2.exact]
  simp

theorem reads_composed (read : Schema → Alternatives) {branches : List Schema}
    (h : ∀ b ∈ branches, ReadsAs compose read b) :
    ∃ a, Reads (composeTypes compose (branchTypes compose branches)) a ∧
      Says a (composedMeaning compose (branchMeanings compose branches))
        (branchesGrouped compose branches && !mixesUnion compose (branchMeanings compose branches)) := by
  cases branches with
  | nil => cases compose <;> exact ⟨_, reads_name "any" (by decide),
      says_single rfl rfl rfl rfl (iff_of_true rfl rfl)⟩
  | cons first rest =>
    cases compose with
    | first =>
      refine ⟨read first, (h first (by simp)).1, ?_⟩
      simpa [branchMeanings, composedMeaning, branchesGrouped, mixesUnion] using (h first (by simp)).2
    | intersection =>
      refine ⟨.joined ((first :: rest).map read), ?_, ?_⟩
      · rw [branchTypes_eq]
        exact reads_joined (by simp) fun b hb => (h b hb).1
      · cases rest with
        | nil =>
          have := (h first (by simp)).2
          simpa [branchMeanings, composedMeaning, branchesGrouped, mixesUnion, Alternatives.joined,
            Alternatives.followedBy, Alternatives.none] using this
        | cons second rest =>
          have := says_joined (first :: second :: rest) (by simp) fun b hb => (h b hb).2
          rw [branchMeanings_eq, branchesGrouped_intersection]
          convert this using 2
          · simp [composedMeaning, List.flatMap_map]
          · simp [mixesUnion, List.not_any_eq_all_not]

/-- The text of a schema whose references are identifiers reads as alternatives that say the shape
of the schema exactly when the schema is grouped. -/
theorem reads_schemaType (s : Schema) (names : ∀ name ∈ s.references, isIdentifier name = true) :
    ∃ a, Reads (schemaType compose s) a ∧
      Says a (schemaMeaning compose s) (schemaGrouped compose s) := by
  induction s using Schema.byChildren with
  | step shape description ih =>
    have hchildren : ∀ child ∈ shape.children, ∃ a, Reads (schemaType compose child) a ∧
        Says a (schemaMeaning compose child) (schemaGrouped compose child) :=
      fun child h => ih child h fun name hn => names name (Shape.references_of_child h hn)
    choose! read hread using hchildren
    rw [schemaType, schemaMeaning, schemaGrouped]
    cases shape with
    | reference name =>
      have hname := names name (by simp [Schema.references, Shape.references])
      exact ⟨_, reads_name name hname, says_single rfl rfl rfl rfl (iff_of_true rfl rfl)⟩
    | scalar kind =>
      obtain ⟨type, hr, hs⟩ := reads_scalarType kind
      exact ⟨_, hr, hs⟩
    | literals values =>
      cases values with
      | nil => exact ⟨_, reads_name "never" (by decide),
          says_single rfl rfl rfl rfl (iff_of_true rfl rfl)⟩
      | cons first rest => exact ⟨_, reads_members first rest, says_members first rest⟩
    | array item =>
      obtain ⟨hr, hs⟩ := hread item (by simp [Shape.children])
      refine ⟨_, hr.array, says_single rfl rfl rfl rfl ?_⟩
      rw [shapeMeaning, TypeShape.array.injEq, hs.exact, shapeGrouped]
    | object properties required =>
      cases properties with
      | nil => exact ⟨_, reads_openMap, says_single rfl rfl rfl rfl (iff_of_true rfl rfl)⟩
      | cons p rest =>
        have h : ∀ q ∈ p :: rest, ReadsAs compose read q.2 :=
          fun q hq => hread q.2 (List.mem_map.mpr ⟨q, hq, rfl⟩)
        exact ⟨_, reads_object (reads_fieldTypes required h), says_object required h⟩
    | composed branches => exact reads_composed read hread
    | unknown => exact ⟨_, reads_name "any" (by decide),
        says_single rfl rfl rfl rfl (iff_of_true rfl rfl)⟩

/-- Compositions that are cut to their first branch never need parentheses. -/
theorem schemaGrouped_first (s : Schema) : schemaGrouped .first s = true := by
  induction s using Schema.byChildren with
  | step shape description ih =>
    rw [schemaGrouped]
    cases shape with
    | array item => exact ih item (by simp [Shape.children])
    | object properties required =>
      rw [shapeGrouped, propertiesGrouped_iff]
      exact fun p hp => ih p.2 (List.mem_map.mpr ⟨p, hp, rfl⟩)
    | composed branches =>
      cases branches with
      | nil => rfl
      | cons first rest =>
        simp [shapeGrouped, branchesGrouped, mixesUnion, ih first (by simp [Shape.children])]
    | reference _ => rfl
    | scalar _ => rfl
    | literals _ => rfl
    | unknown => rfl

/-- The type expression of a schema whose references are identifiers is read back as the shape of
the schema exactly when no intersection in it has a union among its parts. -/
theorem readType_schemaType_iff (compose : Compose) (s : Schema)
    (names : ∀ name ∈ s.references, isIdentifier name = true) :
    readType (schemaType compose s) = some (schemaMeaning compose s) ↔
      schemaGrouped compose s = true := by
  obtain ⟨a, hr, hs⟩ := @reads_schemaType compose s names
  rw [hr.readType, Option.some.injEq, hs.exact]

/-- An array of unions beside a nested composition, with a key in quotes. -/
def tagged : Schema :=
  .mk (.composed [.mk (.array (.mk (.literals ["a|b", "it's"]) none)) none,
    .mk (.composed [.mk (.reference "Base") none,
      .mk (.object [("x-id", .mk (.literals ["A", "B"]) none)] []) none]) none]) none

theorem readType_tagged :
    readType (schemaType .intersection tagged) = some (.intersection
      [.array (.union [.literal "a|b", .literal "it's"]), .name "Base",
        .object [("x-id", true, .union [.literal "A", .literal "B"])]]) :=
  (readType_schemaType_iff .intersection tagged (by decide)).mpr (by decide)

/-- An enumeration with two values beside a reference. -/
def mixed : Schema :=
  .mk (.composed [.mk (.literals ["A", "B"]) none, .mk (.reference "X") none]) none

/-- Meant are both at once; what is read keeps the reference for the second value only. -/
theorem readType_mixed :
    (∀ name ∈ mixed.references, isIdentifier name = true) ∧
      schemaMeaning .intersection mixed =
        .intersection [.union [.literal "A", .literal "B"], .name "X"] ∧
      readType (schemaType .intersection mixed) =
        some (.union [.literal "A", .intersection [.literal "B", .name "X"]]) ∧
      readType (schemaType .intersection mixed) ≠ some (schemaMeaning .intersection mixed) := by
  have hread : readType (schemaType .intersection mixed) =
      some (.union [.literal "A", .intersection [.literal "B", .name "X"]]) := by rfl
  refine ⟨by decide, rfl, hread, ?_⟩
  rw [hread]
  exact nofun

end TypedClient.TypeScript
