import TypedClient.Proofs.SchemaReading

/-! When an array puts its item into parentheses. A scan of the item's text decides, and it comes out
as the tree of the item has it: what stands inside literals, keys and brackets leaves the scan where
it was, so only the outermost operators count. -/

namespace TypedClient.TypeScript

open Model Config

variable {compose : Compose}

/-- The type of a schema has two or more operands: it is an enumeration of as many values, an
intersection of as many branches, or what a composition leaves of a branch that has them. -/
inductive HasOperands (compose : Compose) : Schema → Prop
  | literals {values description} (h : 2 ≤ values.length) :
    HasOperands compose (.mk (.literals values) description)
  | intersection {branches description} (hcompose : compose = .intersection)
    (h : 2 ≤ branches.length) : HasOperands compose (.mk (.composed branches) description)
  | cut {branch rest description} (hcompose : compose = .first) (h : HasOperands compose branch) :
    HasOperands compose (.mk (.composed (branch :: rest)) description)
  | lone {branch description} (h : HasOperands compose branch) :
    HasOperands compose (.mk (.composed [branch]) description)

/-- A scan of the text finds an outer operator exactly when the schema has operands. -/
def ScansAs (compose : Compose) (text : String) (s : Schema) : Prop :=
  ∃ found, TypeExpr.Scans text.toList found ∧ (found = true ↔ HasOperands compose s)

/-- A text of one operand. -/
theorem scansAs_operand {text : String} {operand : TypeShape} {s : Schema}
    (h : Reads text (.single operand)) (hs : ¬ HasOperands compose s) : ScansAs compose text s :=
  ⟨false, h.scan, iff_of_false Bool.false_ne_true hs⟩

/-- A text of several operands. -/
theorem scansAs_operands {text : String} {a : Alternatives} {s : Schema} (h : Reads text a)
    (hseveral : a.several = true) (hs : HasOperands compose s) : ScansAs compose text s :=
  ⟨true, hseveral ▸ h.scan, iff_of_true rfl hs⟩

theorem scansAs_literals (values : List String) (description : Option String) :
    ScansAs compose (TypeExpr.union values) (.mk (.literals values) description) := by
  match values with
  | [] => exact scansAs_operand (reads_name "never" (by decide)) nofun
  | [value] => exact scansAs_operand (reads_members value []) nofun
  | first :: second :: rest =>
    have hfinished := Alternatives.members_finished (.literal first) (.literal second)
      (rest.map .literal)
    rw [TypeExpr.union_cons]
    refine scansAs_operands (reads_members first (second :: rest)) ?_ (.literals (by simp))
    simpa [Alternatives.several] using Or.inl hfinished

/-- Of a composition that is not joined one branch is left, or nothing. -/
theorem scansAs_composed {branches : List Schema} (description : Option String)
    (hread : ∀ b ∈ branches, ∃ a, Reads (schemaType compose b) a)
    (hscan : ∀ b ∈ branches, ScansAs compose (schemaType compose b) b) :
    ScansAs compose (composeTypes compose (branchTypes compose branches))
      (.mk (.composed branches) description) := by
  match branches, compose with
  | [], _ =>
    cases compose <;> exact scansAs_operand (reads_name "any" (by decide)) nofun
  | first :: rest, .first =>
    obtain ⟨found, hfound, hiff⟩ := hscan first (by simp)
    refine ⟨found, hfound, hiff.trans ⟨.cut rfl, ?_⟩⟩
    rintro (_ | _ | _ | _)
    · contradiction
    · assumption
    · assumption
  | [branch], .intersection =>
    obtain ⟨found, hfound, hiff⟩ := hscan branch (by simp)
    refine ⟨found, ?_, hiff.trans ⟨.lone, ?_⟩⟩
    · simpa [composeTypes, branchTypes, TypeExpr.intersection] using hfound
    rintro (_ | ⟨_, h⟩ | _ | _)
    · simp at h
    · assumption
    · assumption
  | first :: second :: rest, .intersection =>
    choose! read hread using hread
    have hrest : Reads (TypeExpr.intersection ((second :: rest).map (schemaType .intersection)))
        (.joined ((second :: rest).map read)) :=
      reads_joined (by simp) fun b hb => hread b (List.mem_cons_of_mem _ hb)
    rw [branchTypes_eq]
    refine scansAs_operands (reads_joined (by simp) hread) ?_ (.intersection rfl (by simp))
    exact several_followedBy (hread first (by simp)).some_operand hrest.some_operand

theorem scansAs_schemaType (s : Schema) (names : ∀ name ∈ s.references, isIdentifier name = true) :
    ScansAs compose (schemaType compose s) s := by
  induction s using Schema.byChildren with
  | step shape description ih =>
    have hnames : ∀ child ∈ shape.children, ∀ name ∈ child.references, isIdentifier name = true :=
      fun child hchild name hname => names name (Shape.references_of_child hchild hname)
    have hread : ∀ child ∈ shape.children, ∃ a, Reads (schemaType compose child) a ∧
        Says a (schemaMeaning compose child) (schemaGrouped compose child) :=
      fun child hchild => reads_schemaType child (hnames child hchild)
    rw [schemaType]
    cases shape with
    | reference name =>
      have hname : name ∈ (Schema.mk (.reference name) description).references := by
        simp [Schema.references, Shape.references]
      exact scansAs_operand (reads_name name (names name hname)) (by rintro ⟨⟩)
    | scalar kind =>
      obtain ⟨type, hr, _⟩ := reads_scalarType kind
      exact scansAs_operand hr (by rintro ⟨⟩)
    | literals values => exact scansAs_literals values description
    | array item =>
      obtain ⟨a, hr, _⟩ := hread item (by simp [Shape.children])
      exact scansAs_operand hr.array (by rintro ⟨⟩)
    | object properties required =>
      cases properties with
      | nil => exact scansAs_operand reads_openMap (by rintro ⟨⟩)
      | cons p rest =>
        choose! read hread using hread
        have hfields : ∀ q ∈ p :: rest, ReadsAs compose read q.2 :=
          fun q hq => hread q.2 (List.mem_map.mpr ⟨q, hq, rfl⟩)
        exact scansAs_operand (reads_object (reads_fieldTypes required hfields)) (by rintro ⟨⟩)
    | composed branches =>
      exact scansAs_composed description (fun b hb => (hread b hb).imp fun _ h => h.1)
        fun b hb => ih b hb (hnames b hb)
    | unknown => exact scansAs_operand (reads_name "any" (by decide)) (by rintro ⟨⟩)

/-- The text of an array is that of its item in parentheses with `[]` behind them exactly when the
item has two operands or more, and the bare text of the item with `[]` exactly when it has not. -/
theorem schemaType_array_iff (compose : Compose) (item : Schema) (description : Option String)
    (names : ∀ name ∈ item.references, isIdentifier name = true) :
    (schemaType compose (.mk (.array item) description) = "(" ++ schemaType compose item ++ ")[]" ↔
        HasOperands compose item) ∧
      (schemaType compose (.mk (.array item) description) = schemaType compose item ++ "[]" ↔
        ¬ HasOperands compose item) := by
  obtain ⟨found, hscan, hfound⟩ := @scansAs_schemaType compose item names
  have hoperator : TypeExpr.hasOperator (.code 0) (schemaType compose item).toList = found := by
    simpa [TypeExpr.hasOperator_nil] using hscan 0 []
  have hdiffer : "(" ++ schemaType compose item ++ ")[]" ≠ schemaType compose item ++ "[]" := by
    intro h
    have hlength := congrArg String.length h
    simp only [String.length_append] at hlength
    have h1 : "(".length = 1 := rfl
    have h3 : ")[]".length = 3 := rfl
    have h2 : "[]".length = 2 := rfl
    omega
  have harray : schemaType compose (.mk (.array item) description) =
      if found then "(" ++ schemaType compose item ++ ")[]" else schemaType compose item ++ "[]" := by
    rw [schemaType, shapeType, TypeExpr.array, hoperator]
  rw [harray, ← hfound]
  cases found with
  | true => simp [hdiffer]
  | false => simp [hdiffer.symm]

/-- A single branch of two values, with an operator, a bracket and escapes inside the quotes. -/
def quotedValues : Schema :=
  .mk (.composed [.mk (.literals ["a|(b", "it's \\"]) none]) none

/-- An object with an operator and a bracket in its key and an enumeration behind it. -/
def quotedKey : Schema :=
  .mk (.object [("x & [y", .mk (.composed [quotedValues, .mk (.reference "X") none]) none)] []) none

theorem schemaType_array_quoted :
    (∀ name ∈ quotedValues.references, isIdentifier name = true) ∧
      (∀ name ∈ quotedKey.references, isIdentifier name = true) ∧
      schemaType .intersection (.mk (.array quotedValues) none) =
        "(" ++ schemaType .intersection quotedValues ++ ")[]" ∧
      schemaType .intersection (.mk (.array quotedKey) none) =
        schemaType .intersection quotedKey ++ "[]" :=
  ⟨by decide, by decide,
    (schemaType_array_iff .intersection quotedValues none (by decide)).1.mpr
      (.lone (.literals (by decide))),
    (schemaType_array_iff .intersection quotedKey none (by decide)).2.mpr nofun⟩

end TypedClient.TypeScript
