import TypedClient.Proofs.SchemaMeaning
import TypedClient.Proofs.TypeSpelling

/-! What a text says against what it is meant to say. The law for intersections is an
equivalence: texts between `&` say the intersection of their types exactly when each
says its own type and none of these is a union. -/

namespace TypedClient.TypeScript

variable {β γ : Type}

/-- The alternatives read from a text, against the type that it is meant to say. When the text has
one alternative, its operands are as many as the parts that are meant. -/
structure Says (a : Alternatives) (meant : TypeShape) (grouped : Bool) : Prop where
  plain : a.finished = [] → a.shape.isUnion = false ∧ a.shape.parts = a.current
  count : a.finished = [] → meant.isUnion = false ∧ meant.parts.length = a.current.length
  proper : TypeShape.all meant.parts = meant ∧ meant.parts ≠ []
  exact : a.shape = meant ↔ grouped = true

theorem Alternatives.shape_isUnion {a : Alternatives} (h : a.finished ≠ []) :
    a.shape.isUnion = true := by
  obtain ⟨finished, current⟩ := a
  match finished, h with
  | first :: rest, _ => cases rest <;> rfl

theorem Alternatives.shape_of_nil {a : Alternatives} (h : a.finished = []) :
    a.shape = .all a.current := by
  obtain ⟨finished, current⟩ := a
  cases h
  rfl

theorem TypeShape.all_of_two_le {parts : List TypeShape} (h : 2 ≤ parts.length) :
    TypeShape.all parts = .intersection parts := by
  match parts, h with
  | _ :: _ :: _, _ => rfl

/-- An operand that is neither a union nor an intersection. -/
theorem says_single {read meant : TypeShape} {grouped : Bool} (hu : read.isUnion = false)
    (hp : read.parts = [read]) (hu' : meant.isUnion = false) (hp' : meant.parts = [meant])
    (he : read = meant ↔ grouped = true) : Says (.single read) meant grouped where
  plain _ := ⟨hu, hp⟩
  count _ := ⟨hu', by rw [hp']; rfl⟩
  proper := by simp [hp', TypeShape.all]
  exact := he

/-! ### Intersections -/

/-- Several texts between `&`. -/
def Alternatives.joined (as : List Alternatives) : Alternatives := as.foldr followedBy none

theorem Alternatives.followedBy_finished (a b : Alternatives) :
    (a.followedBy b).finished = [] ↔ a.finished = [] ∧ b.finished = [] := by
  obtain ⟨bf, bc⟩ := b
  cases bf <;> simp [followedBy]

theorem Alternatives.joined_finished (as : List Alternatives) :
    (joined as).finished = [] ↔ ∀ a ∈ as, a.finished = [] := by
  induction as with
  | nil => simp [joined, none]
  | cons a rest ih =>
    rw [joined, List.foldr_cons, followedBy_finished, ← joined, ih]
    simp

theorem Alternatives.joined_current {as : List Alternatives} (h : ∀ a ∈ as, a.finished = []) :
    (joined as).current = as.flatMap current := by
  induction as with
  | nil => rfl
  | cons a rest ih =>
    have hrest := (joined_finished rest).mpr fun b hb => h b (by simp [hb])
    rw [joined, List.foldr_cons, ← joined, followedBy, hrest]
    simp [ih fun b hb => h b (by simp [hb])]

theorem length_le_length_flatMap {xs : List β} {p : β → List γ}
    (h : ∀ x ∈ xs, p x ≠ []) : xs.length ≤ (xs.flatMap p).length := by
  induction xs with
  | nil => simp
  | cons x rest ih =>
    have := List.length_pos_iff.mpr (h x (by simp))
    have := ih fun y hy => h y (by simp [hy])
    simp only [List.length_cons, List.flatMap_cons, List.length_append]
    omega

theorem length_flatMap_congr {xs : List β} {p q : β → List γ}
    (h : ∀ x ∈ xs, (p x).length = (q x).length) : (xs.flatMap p).length = (xs.flatMap q).length := by
  induction xs with
  | nil => rfl
  | cons x rest ih => simp [h x (by simp), ih fun y hy => h y (by simp [hy])]

/-- Equal concatenations of lists of pairwise equal lengths have equal members. -/
theorem flatMap_inj {xs : List β} {p q : β → List γ}
    (hl : ∀ x ∈ xs, (p x).length = (q x).length) (h : xs.flatMap p = xs.flatMap q) :
    ∀ x ∈ xs, p x = q x := by
  induction xs with
  | nil => simp
  | cons x rest ih =>
    rw [List.flatMap_cons, List.flatMap_cons] at h
    obtain ⟨hx, hrest⟩ := List.append_inj h (hl x (by simp))
    intro y hy
    rcases List.mem_cons.mp hy with rfl | hy
    · exact hx
    · exact ih (fun z hz => hl z (by simp [hz])) hrest y hy

/-- Two or more texts between `&` say the intersection that is meant when each says its part and
none is a union. -/
theorem says_joined (branches : List β) {read : β → Alternatives}
    {meant : β → TypeShape} {grouped : β → Bool} (hlen : 2 ≤ branches.length)
    (h : ∀ b ∈ branches, Says (read b) (meant b) (grouped b)) :
    Says (.joined (branches.map read)) (.intersection (branches.flatMap fun b => (meant b).parts))
      (branches.all grouped && branches.all fun b => !(meant b).isUnion) := by
  set a := Alternatives.joined (branches.map read)
  set parts := branches.flatMap fun b => (meant b).parts
  have hparts : 2 ≤ parts.length :=
    Nat.le_trans hlen (length_le_length_flatMap fun b hb => (h b hb).proper.2)
  have hfin : a.finished = [] ↔ ∀ b ∈ branches, (read b).finished = [] := by
    simp [a, Alternatives.joined_finished]
  have hcur (hf : a.finished = []) : a.current = branches.flatMap fun b => (read b).current := by
    rw [Alternatives.joined_current (by simpa using hfin.mp hf), List.flatMap_map]
  have hcount (hf : a.finished = []) :
      ∀ b ∈ branches, (read b).current.length = (meant b).parts.length :=
    fun b hb => ((h b hb).count (hfin.mp hf b hb)).2.symm
  have hlength (hf : a.finished = []) : parts.length = a.current.length := by
    rw [hcur hf]
    exact (length_flatMap_congr (hcount hf)).symm
  have hshape (hf : a.finished = []) : a.shape = .intersection a.current := by
    rw [Alternatives.shape_of_nil hf, TypeShape.all_of_two_le (hlength hf ▸ hparts)]
  refine ⟨fun hf => ?_, fun hf => ⟨rfl, hlength hf⟩, ⟨TypeShape.all_of_two_le hparts, ?_⟩, ?_, ?_⟩
  · rw [hshape hf]
    exact ⟨rfl, rfl⟩
  · intro hnil
    simp only [TypeShape.parts] at hnil
    simp [hnil] at hparts
  · intro he
    have hf : a.finished = [] := by
      by_contra hf
      have := Alternatives.shape_isUnion hf
      simp [he, TypeShape.isUnion] at this
    -- the operands are as many on both sides, so each branch says its own part
    have hall : branches.flatMap (fun b => (read b).current) = parts := by
      rw [hshape hf, TypeShape.intersection.injEq] at he
      rw [← hcur hf, he]
    have heach := flatMap_inj (hcount hf) hall
    simp only [Bool.and_eq_true, List.all_eq_true, Bool.not_eq_true']
    refine ⟨fun b hb => (h b hb).exact.mp ?_, fun b hb => ((h b hb).count (hfin.mp hf b hb)).1⟩
    rw [Alternatives.shape_of_nil (hfin.mp hf b hb), heach b hb, (h b hb).proper.1]
  · intro hg
    simp only [Bool.and_eq_true, List.all_eq_true, Bool.not_eq_true'] at hg
    obtain ⟨hgrouped, hunion⟩ := hg
    have hsame : ∀ b ∈ branches, (read b).shape = meant b :=
      fun b hb => (h b hb).exact.mpr (hgrouped b hb)
    have hf : a.finished = [] := hfin.mpr fun b hb => by
      by_contra hf
      have := Alternatives.shape_isUnion hf
      simp [hsame b hb, hunion b hb] at this
    rw [hshape hf, hcur hf]
    congr 1
    refine List.flatMap_congr fun b hb => ?_
    rw [← ((h b hb).plain (hfin.mp hf b hb)).2, hsame b hb]

theorem reads_joined {types : β → String} {read : β → Alternatives}
    {branches : List β} (hne : branches ≠ [])
    (h : ∀ b ∈ branches, Reads (types b) (read b)) :
    Reads (TypeExpr.intersection (branches.map types)) (.joined (branches.map read)) := by
  induction branches with
  | nil => exact absurd rfl hne
  | cons b rest ih =>
    have hb := h b (by simp)
    cases rest with
    | nil =>
      have hright : (read b).followedBy .none = read b := by
        simp [Alternatives.followedBy, Alternatives.none]
      simpa [TypeExpr.intersection, Alternatives.joined, hright] using hb
    | cons c rest =>
      have hrest := ih (by simp) fun d hd => h d (by simp [hd])
      have := hb.and hrest
      simpa [TypeExpr.intersection, Alternatives.joined, String.intercalate_cons_cons] using this

/-! ### Unions of literals -/

/-- One operand or more, each an alternative of its own. -/
def Alternatives.members (first : TypeShape) : List TypeShape → Alternatives
  | [] => .single first
  | second :: rest => (single first).close.followedBy (members second rest)

theorem Alternatives.members_eq (first : TypeShape) (rest : List TypeShape) :
    (members first rest).finished ++ [(members first rest).current] =
      (first :: rest).map fun member => [member] := by
  induction rest generalizing first with
  | nil => rfl
  | cons second rest ih =>
    have := ih second
    rw [members]
    revert this
    cases members second rest with
    | mk finished current =>
      cases finished <;> simp +contextual [followedBy, close, single]

theorem Alternatives.members_shape (first : TypeShape) (rest : List TypeShape) :
    (members first rest).shape = .any (first :: rest) := by
  rw [shape, members_eq, List.map_map]
  congr 1
  exact List.map_id' _

theorem reads_members (first : String) (rest : List String) :
    Reads (" | ".intercalate ((first :: rest).map stringLiteral))
      (.members (.literal first) (rest.map .literal)) := by
  induction rest generalizing first with
  | nil => simpa [Alternatives.members] using reads_literal first
  | cons second rest ih =>
    have := (reads_literal first).or (ih second)
    simpa [Alternatives.members, String.intercalate_cons_cons] using this

theorem Alternatives.members_finished (first second : TypeShape) (rest : List TypeShape) :
    (members first (second :: rest)).finished ≠ [] := by
  intro h
  have := members_eq first (second :: rest)
  rw [h] at this
  simp at this

theorem says_members (first : String) (rest : List String) :
    Says (.members (.literal first) (rest.map .literal)) (.any ((first :: rest).map .literal))
      true := by
  have hshape := Alternatives.members_shape (.literal first) (rest.map .literal)
  cases rest with
  | nil => exact says_single rfl rfl rfl rfl (by simp [TypeShape.any])
  | cons second rest =>
    have hfin := Alternatives.members_finished (.literal first) (.literal second) (rest.map .literal)
    exact ⟨fun hf => absurd hf hfin, fun hf => absurd hf hfin,
      ⟨rfl, by simp [TypeShape.any, TypeShape.parts]⟩, iff_of_true hshape rfl⟩

end TypedClient.TypeScript
