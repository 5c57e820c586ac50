import TypedClient.Model.Serialized
import TypedClient.Proofs.Schemas
import TypedClient.Proofs.ValueTexts

/-! Schemas read back from their texts. A snapshot tells schemas apart: each kind has its own mark,
a description that is absent is left out and not written as an empty one, and properties and required
names keep their order. A reader that goes by the mark finds every schema again, so that no two
schemas have one text. -/

namespace TypedClient.Model

open Json

/-- The scalar of a given name. -/
def Scalar.ofName? : String → Option Scalar
  | "string" => some .string
  | "number" => some .number
  | "integer" => some .integer
  | "boolean" => some .boolean
  | _ => none

/-- The texts in a list of values. -/
def textsOf? : List Value → Option (List String)
  | [] => some []
  | .string s :: rest => (textsOf? rest).map (s :: ·)
  | _ => none

mutual

/-- Reads a schema. -/
def Schema.ofValue? : Value → Option Schema
  | .object [("kind", kind)] => (Shape.ofValue? kind).map (.mk · none)
  | .object [("kind", kind), ("description", .string text)] =>
    (Shape.ofValue? kind).map (.mk · (some text))
  | _ => none

/-- Reads a shape by its mark. -/
def Shape.ofValue? : Value → Option Shape
  | .object [("type", .string "reference"), ("name", .string name)] => some (.reference name)
  | .object [("type", .string "primitive"), ("primitive", .string name)] =>
    (Scalar.ofName? name).map .scalar
  | .object [("type", .string "enum_string"), ("values", .array values)] =>
    (textsOf? values).map .literals
  | .object [("type", .string "array_of"), ("item", item)] => (Schema.ofValue? item).map .array
  | .object [("type", .string "object"), ("properties", .object properties),
      ("required", .array required)] => do
    return .object (← propertiesOf? properties) (← textsOf? required)
  | .object [("type", .string "composed"), ("branches", .array branches)] =>
    (branchesOf? branches).map .composed
  | .object [("type", .string "unknown")] => some .unknown
  | _ => none

def branchesOf? : List Value → Option (List Schema)
  | [] => some []
  | branch :: rest => do return (← Schema.ofValue? branch) :: (← branchesOf? rest)

def propertiesOf? : List (String × Value) → Option (List (String × Schema))
  | [] => some []
  | (name, value) :: rest => do return (name, ← Schema.ofValue? value) :: (← propertiesOf? rest)

end

/-- Reads a schema from its text. -/
def Schema.ofText? (text : String) : Option Schema := (Value.ofText? text).bind ofValue?

theorem Scalar.ofName?_name (kind : Scalar) : ofName? kind.name = some kind := by
  cases kind <;> rfl

theorem textsOf?_map (texts : List String) : textsOf? (texts.map .string) = some texts := by
  induction texts with
  | nil => rfl
  | cons text rest ih => rw [List.map_cons, textsOf?, ih, Option.map_some]

section Parts

variable {properties : List (String × Schema)} {branches : List Schema}

theorem branchesOf?_branchesJson
    (h : ∀ branch ∈ branches, Schema.ofValue? branch.toJson = some branch) :
    branchesOf? (branchesJson branches) = some branches := by
  induction branches with
  | nil => rfl
  | cons branch rest ih =>
    obtain ⟨hbranch, hrest⟩ := List.forall_mem_cons.mp h
    simp [branchesJson, branchesOf?, hbranch, ih hrest]

theorem propertiesOf?_propertiesJson
    (h : ∀ schema ∈ properties.map Prod.snd, Schema.ofValue? schema.toJson = some schema) :
    propertiesOf? (propertiesJson properties) = some properties := by
  induction properties with
  | nil => rfl
  | cons property rest ih =>
    obtain ⟨hproperty, hrest⟩ := List.forall_mem_cons.mp h
    simp [propertiesJson, propertiesOf?, hproperty, ih hrest]

end Parts

theorem Shape.ofValue?_toJson {shape : Shape}
    (h : ∀ child ∈ shape.children, Schema.ofValue? child.toJson = some child) :
    ofValue? shape.toJson = some shape := by
  cases shape with
  | reference name => rw [toJson, ofValue?]
  | scalar kind => rw [toJson, ofValue?, Scalar.ofName?_name, Option.map_some]
  | literals values => rw [toJson, ofValue?, textsOf?_map, Option.map_some]
  | array item =>
    rw [toJson, ofValue?, h item (List.mem_singleton_self item), Option.map_some]
  | object properties required =>
    rw [toJson, ofValue?, propertiesOf?_propertiesJson h, textsOf?_map]
    rfl
  | composed branches => rw [toJson, ofValue?, @branchesOf?_branchesJson branches h, Option.map_some]
  | unknown => rw [toJson, ofValue?]

/-- Every schema is read back. -/
theorem Schema.ofValue?_toJson (s : Schema) : ofValue? s.toJson = some s := by
  induction s using Schema.byChildren with
  | step shape description ih =>
    cases description with
    | none => rw [toJson, ofValue?, Shape.ofValue?_toJson ih, Option.map_some]
    | some text => rw [toJson, ofValue?, Shape.ofValue?_toJson ih, Option.map_some]

/-! ### Texts -/

theorem propertiesJson_eq (properties : List (String × Schema)) :
    propertiesJson properties = properties.map fun p => (p.1, p.2.toJson) := by
  induction properties with
  | nil => rfl
  | cons property rest ih => rw [propertiesJson, ih, List.map_cons]

theorem branchesJson_eq (branches : List Schema) :
    branchesJson branches = branches.map Schema.toJson := by
  induction branches with
  | nil => rfl
  | cons branch rest ih => rw [branchesJson, ih, List.map_cons]

theorem numberless_texts (texts : List String) : (Value.array (texts.map .string)).Numberless :=
  .array (List.forall_mem_map.mpr fun text _ => .string text)

/-- The mark of a shape in front of what the shape consists of. -/
theorem numberless_marked (mark : String) {entries : List (String × Value)}
    (h : ∀ entry ∈ entries, entry.2.Numberless) :
    (Value.object (("type", .string mark) :: entries)).Numberless :=
  .object (List.forall_mem_cons.mpr ⟨.string mark, h⟩)

theorem Shape.numberless_toJson {shape : Shape}
    (h : ∀ child ∈ shape.children, child.toJson.Numberless) : shape.toJson.Numberless := by
  cases shape with
  | reference name => exact numberless_marked _ (List.forall_mem_singleton.mpr (.string name))
  | scalar kind => exact numberless_marked _ (List.forall_mem_singleton.mpr (.string kind.name))
  | literals values =>
    exact numberless_marked _ (List.forall_mem_singleton.mpr (numberless_texts values))
  | array item =>
    have hitem := h item (List.mem_singleton_self item)
    exact numberless_marked _ (List.forall_mem_singleton.mpr hitem)
  | object properties required =>
    have hproperties : (Value.object (propertiesJson properties)).Numberless := by
      rw [propertiesJson_eq]
      exact .object (List.forall_mem_map.mpr fun p hp => h p.2 (List.mem_map_of_mem hp))
    exact numberless_marked _ (List.forall_mem_cons.mpr
      ⟨hproperties, List.forall_mem_singleton.mpr (numberless_texts required)⟩)
  | composed branches =>
    have hbranches : (Value.array (branchesJson branches)).Numberless := by
      rw [branchesJson_eq]
      exact .array (List.forall_mem_map.mpr h)
    exact numberless_marked _ (List.forall_mem_singleton.mpr hbranches)
  | unknown => exact numberless_marked _ nofun

theorem Schema.numberless_toJson (s : Schema) : s.toJson.Numberless := by
  induction s using Schema.byChildren with
  | step shape description ih =>
    have hshape := Shape.numberless_toJson ih
    cases description with
    | none => exact .object (List.forall_mem_singleton.mpr hshape)
    | some text =>
      exact .object (List.forall_mem_cons.mpr
        ⟨hshape, List.forall_mem_singleton.mpr (.string text)⟩)

/-- A text with the tokens of a schema is read as that schema. -/
theorem Schema.ofText?_of_spells {s : Schema} {text : String}
    (h : Spells text.toList s.toJson.tree.tokens) : ofText? text = some s := by
  rw [ofText?, Value.ofText?_of_spells s.numberless_toJson h]
  exact s.ofValue?_toJson

/-- Every schema is read back from its compact text, so that no two schemas have one text, and also
from the text that it has in a snapshot, at whatever depth of indentation it stands there. -/
theorem Schema.texts_read_back :
    (∀ s : Schema, ofText? s.toJson.compact = some s) ∧
      Function.Injective (fun s : Schema => s.toJson.compact) ∧
      ∀ (s : Schema) (depth : Nat), ofText? (s.toJson.prettyAt depth) = some s := by
  have hcompact : ∀ s : Schema, ofText? s.toJson.compact = some s :=
    fun s => ofText?_of_spells (Value.spells_compact s.numberless_toJson)
  refine ⟨hcompact, ?_, fun s depth => ?_⟩
  · intro s t h
    have htext : s.toJson.compact = t.toJson.compact := h
    have hread := hcompact s
    rw [htext, hcompact t] at hread
    exact (Option.some.inj hread).symm
  · exact ofText?_of_spells (Value.spells_prettyAt s.numberless_toJson depth)

end TypedClient.Model
