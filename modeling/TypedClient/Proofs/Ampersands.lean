import TypedClient.Proofs.Layout
import TypedClient.TypeScript.SchemaType

/-! The ampersands in a text. Joining all branches of a composition writes some that its first branch
alone does without, and nothing that is written around a type adds or takes away any. So of two texts
made in the same way from types with and without them, the second has more. -/

namespace TypedClient

/-- `b` is `a` itself, or larger when `p` holds. -/
structure Grows {α : Type} (size : α → Nat) (p : Prop) (a b : α) : Prop where
  same : ¬p → a = b
  more : p → size a < size b

/-- The sizes of a list's elements put together. -/
def total {α : Type} (size : α → Nat) : List α → Nat
  | [] => 0
  | a :: rest => size a + total size rest

theorem total_append {α : Type} (size : α → Nat) (before after : List α) :
    total size (before ++ after) = total size before + total size after := by
  induction before with
  | nil => simp [total]
  | cons a rest ih =>
    rw [List.cons_append, total, total, ih]
    omega

theorem total_map {α β : Type} (size : β → Nat) (f : α → β) (l : List α) :
    total size (l.map f) = total (fun a => size (f a)) l := by
  induction l with
  | nil => rfl
  | cons a rest ih => rw [List.map_cons, total, total, ih]

namespace Grows

variable {α β γ : Type} {size : α → Nat} {p q : Prop} {a a' b b' : α}

theorem refl (a : α) : Grows size False a a := ⟨fun _ => rfl, False.elim⟩

theorem congr (h : Grows size p a b) (hpq : p ↔ q) : Grows size q a b :=
  ⟨fun hq => h.same fun hp => hq (hpq.mp hp), fun hq => h.more (hpq.mpr hq)⟩

theorem le (h : Grows size p a b) : size a ≤ size b := by
  by_cases hp : p
  · exact Nat.le_of_lt (h.more hp)
  · exact Nat.le_of_eq (congrArg size (h.same hp))

theorem eq_iff (h : Grows size p a b) : a = b ↔ ¬p := by
  constructor
  · rintro rfl hp
    exact Nat.lt_irrefl _ (h.more hp)
  · exact h.same

/-- What adds the same to every size grows where its argument does. -/
theorem map (h : Grows size p a b) {size' : β → Nat} {f : α → β} {k : Nat}
    (hf : ∀ a, size' (f a) = size a + k) : Grows size' p (f a) (f b) where
  same hp := by rw [h.same hp]
  more hp := by
    rw [hf, hf]
    exact Nat.add_lt_add_right (h.more hp) k

/-- What adds up sizes grows where either part does. -/
theorem combine {op : α → α → α} (hop : ∀ a b, size (op a b) = size a + size b)
    (h : Grows size p a b) (h' : Grows size q a' b') : Grows size (p ∨ q) (op a a') (op b b') where
  same hpq := by rw [h.same fun hp => hpq (.inl hp), h'.same fun hq => hpq (.inr hq)]
  more hpq := by
    have hle := h.le
    have hle' := h'.le
    rw [hop, hop]
    rcases hpq with hp | hq
    · have := h.more hp
      omega
    · have := h'.more hq
      omega

/-- Lists put together of lists that grow. -/
theorem flatMap {size : List β → Nat} (hsize : ∀ l m, size (l ++ m) = size l + size m)
    {P : γ → Prop} {f g : γ → List β} {l : List γ}
    (h : ∀ x ∈ l, Grows size (P x) (f x) (g x)) :
    Grows size (∃ x ∈ l, P x) (l.flatMap f) (l.flatMap g) := by
  induction l with
  | nil => exact (refl []).congr (by simp)
  | cons x rest ih =>
    obtain ⟨hx, hrest⟩ := List.forall_mem_cons.mp h
    rw [List.flatMap_cons, List.flatMap_cons]
    exact (combine hsize hx (ih hrest)).congr (by simp)

theorem single (h : Grows size p a b) : Grows (total size) p [a] [b] :=
  h.map (f := fun a => [a]) (k := 0) fun _ => rfl

/-- Lists element by element. -/
theorem list {P : γ → Prop} {f g : γ → α} {l : List γ}
    (h : ∀ x ∈ l, Grows size (P x) (f x) (g x)) :
    Grows (total size) (∃ x ∈ l, P x) (l.map f) (l.map g) := by
  rw [List.map_eq_flatMap, List.map_eq_flatMap]
  exact flatMap (total_append size) fun x hx => (h x hx).single

end Grows

namespace TypeScript

open Code Config

def ampersands (text : String) : Nat := text.toList.count '&'

@[simp] theorem ampersands_append (a b : String) :
    ampersands (a ++ b) = ampersands a + ampersands b := by
  rw [ampersands, String.toList_append, List.count_append]
  rfl

/-- A separator without ampersands adds none. -/
theorem ampersands_intercalate {separator : String} (h : ampersands separator = 0)
    (texts : List String) :
    ampersands (separator.intercalate texts) = total ampersands texts := by
  induction texts with
  | nil => rfl
  | cons text rest ih =>
    cases rest with
    | nil => simp [total]
    | cons next rest =>
      rw [String.intercalate_cons_cons, ampersands_append, ampersands_append, ih, h]
      rfl

/-! ### Types -/

theorem ampersands_array (item : String) : ampersands (TypeExpr.array item) = ampersands item := by
  have hgroup : ampersands "(" = 0 ∧ ampersands ")[]" = 0 ∧ ampersands "[]" = 0 := by decide
  unfold TypeExpr.array
  split <;> simp [hgroup]

theorem ampersands_object (fields : List TypeExpr.Field) :
    ampersands (TypeExpr.object fields) = total (fun field => ampersands field.text) fields := by
  have hmarks : ampersands r"{ " = 0 ∧ ampersands r" }" = 0 ∧ ampersands ", " = 0 := by decide
  cases fields with
  | nil => rfl
  | cons field rest =>
    rw [← total_map ampersands TypeExpr.Field.text]
    simp [TypeExpr.object, ampersands_intercalate hmarks.2.2, hmarks]

theorem grows_array {p : Prop} {a b : String} (h : Grows ampersands p a b) :
    Grows ampersands p (TypeExpr.array a) (TypeExpr.array b) :=
  h.map (k := 0) ampersands_array

/-- A composition of several branches has an ampersand between them when all are joined, and none
when only the first is used. -/
theorem grows_composeTypes {γ : Type} {P : γ → Prop} {f g : γ → String} {branches : List γ}
    (h : ∀ x ∈ branches, Grows ampersands (P x) (f x) (g x)) :
    Grows ampersands (2 ≤ branches.length ∨ ∃ x ∈ branches, P x)
      (composeTypes .first (branches.map f)) (composeTypes .intersection (branches.map g)) := by
  match branches with
  | [] => exact (Grows.refl _).congr (by simp)
  | [x] => exact (h x (by simp)).congr (by simp)
  | x :: y :: rest =>
    have hseveral : 2 ≤ (x :: y :: rest).length := by simp
    refine ⟨fun hp => absurd (.inl hseveral) hp, fun _ => ?_⟩
    have hx := (h x (by simp)).le
    have hjoint : ampersands " & " = 1 := by decide
    calc
      ampersands (f x) ≤ ampersands (g x) := hx
      _ < ampersands (g x) + ampersands " & " +
          ampersands (" & ".intercalate (g y :: rest.map g)) := by omega
      _ = ampersands (" & ".intercalate (g x :: g y :: rest.map g)) := by
        rw [String.intercalate_cons_cons, ampersands_append, ampersands_append]

/-! ### Fragments -/

theorem ampersands_indentation (depth : Nat) : ampersands (Buffer.indentation depth) = 0 := by
  rw [ampersands, toList_indentation, List.count_replicate]
  rfl

theorem ampersands_lineAt (depth : Nat) (text : String) :
    ampersands (lineAt depth text) = ampersands text := by
  have hbreak : ampersands "\n" = 0 := by decide
  rw [lineAt, ampersands_append, ampersands_append, ampersands_indentation, hbreak]
  omega

mutual

/-- How deep a fragment stands makes no difference. -/
theorem ampersands_textAt (fragment : Fragment) (depth : Nat) :
    ampersands (fragment.textAt depth) = ampersands (fragment.textAt 0) := by
  match fragment with
  | .line text => simp only [Fragment.textAt, ampersands_lineAt]
  | .blank => rfl
  | .raw text => rfl
  | .block header body close =>
    have hclose : ∀ depth, ampersands (closingAt depth close) = ampersands (close.getD "") := by
      intro depth
      cases close with
      | none => rfl
      | some text => exact ampersands_lineAt depth text
    simp only [Fragment.textAt, ampersands_append, ampersands_lineAt, hclose]
    rw [ampersands_textsAt body (depth + 1), ampersands_textsAt body (0 + 1)]
  | .sequence body => exact ampersands_textsAt body depth
  | .comment text => simp only [Fragment.textAt, ampersands_lineAt]

theorem ampersands_textsAt (fragments : List Fragment) (depth : Nat) :
    ampersands (textsAt depth fragments) = ampersands (textsAt 0 fragments) := by
  match fragments with
  | [] => rfl
  | fragment :: rest =>
    rw [textsAt, textsAt, ampersands_append, ampersands_append, ampersands_textAt fragment depth,
      ampersands_textsAt rest depth]

end

/-- The ampersands in the text of fragments. -/
def codeAmpersands (fragments : List Fragment) : Nat := ampersands (Code.render fragments)

theorem codeAmpersands_append (before after : List Fragment) :
    codeAmpersands (before ++ after) = codeAmpersands before + codeAmpersands after := by
  simp only [codeAmpersands, render_eq, textsAt_append, ampersands_append]

theorem codeAmpersands_line (text : String) : codeAmpersands [.line text] = ampersands text := by
  rw [codeAmpersands, render_eq, textsAt, textsAt, Fragment.textAt, String.append_empty,
    ampersands_lineAt]

theorem codeAmpersands_block (header closing : String) (body : List Fragment) :
    codeAmpersands [.block header body (some closing)] =
      codeAmpersands body + (ampersands header + ampersands closing) := by
  simp only [codeAmpersands, render_eq, textsAt, Fragment.textAt, closingAt, String.append_empty,
    ampersands_append, ampersands_lineAt]
  rw [ampersands_textsAt body (0 + 1)]
  omega

/-! ### Declarations -/

/-- The ampersands in the text of fields. -/
def fieldAmpersands (fields : List Field) : Nat := codeAmpersands (fieldFragments fields)

theorem fieldAmpersands_append (before after : List Field) :
    fieldAmpersands (before ++ after) = fieldAmpersands before + fieldAmpersands after := by
  induction before with
  | nil => simp [fieldAmpersands, codeAmpersands, fieldFragments, render_eq, textsAt, ampersands]
  | cons field rest ih =>
    simp only [fieldAmpersands, List.cons_append, fieldFragments, codeAmpersands_append] at ih ⊢
    omega

theorem fieldAmpersands_plain (name : String) (optional : Bool) (comments : List String)
    (type : String) : fieldAmpersands [.plain name optional comments type] = ampersands type +
      (codeAmpersands (Fragment.comments comments) + ampersands (fieldLabel name optional)) := by
  simp only [fieldAmpersands, fieldFragments, Field.fragments, List.append_nil,
    codeAmpersands_append, codeAmpersands_line, ampersands_append]
  omega

/-- Fields in braces, or bare braces. -/
theorem codeAmpersands_braces {opening closed : String} {k : Nat} (hopening : ampersands opening = k)
    (hclosed : ampersands closed = k) (fields : List Field) :
    codeAmpersands [if fields.isEmpty then .line closed
        else .block opening (fieldFragments fields) (some r"}")] = fieldAmpersands fields + k := by
  have hmark : ampersands r"}" = 0 := by decide
  cases fields with
  | nil =>
    have hnone : fieldAmpersands [] = 0 := rfl
    simp [codeAmpersands_line, hclosed, hnone]
  | cons field rest => simp [codeAmpersands_block, hopening, hmark, fieldAmpersands]

theorem fieldAmpersands_nested (name : String) (optional : Bool) (comments : List String)
    (fields : List Field) : fieldAmpersands [.nested name optional comments fields] =
      fieldAmpersands fields +
        (codeAmpersands (Fragment.comments comments) + ampersands (fieldLabel name optional)) := by
  have hmarks : ampersands "{}" = 0 ∧ ampersands r"{" = 0 := by decide
  rw [fieldAmpersands, fieldFragments, fieldFragments, Field.fragments, List.append_nil,
    codeAmpersands_append, codeAmpersands_braces (k := ampersands (fieldLabel name optional))
      (by simp [hmarks]) (by simp [hmarks])]
  omega

def declarationAmpersands (declaration : Declaration) : Nat := codeAmpersands declaration.fragments

theorem declarationAmpersands_interface (name : String) (comments : List String)
    (fields : List Field) : declarationAmpersands (.interface ⟨name, comments, fields⟩) =
      fieldAmpersands fields + (codeAmpersands (Fragment.comments comments) + ampersands name) := by
  have hmarks : ampersands "export interface " = 0 ∧ ampersands " {}" = 0 ∧
      ampersands r" {" = 0 := by decide
  rw [declarationAmpersands, Declaration.fragments, Interface.fragments, codeAmpersands_append,
    codeAmpersands_braces (k := ampersands name) (by simp [hmarks]) (by simp [hmarks])]
  dsimp only
  omega

theorem declarationAmpersands_alias (name : String) (comments : List String) (type : String) :
    declarationAmpersands (.alias ⟨name, comments, type⟩) = ampersands type +
      (codeAmpersands (Fragment.comments comments) +
        ampersands ("export type " ++ name ++ " = ")) := by
  rw [declarationAmpersands, Declaration.fragments, Alias.fragments, codeAmpersands_append,
    codeAmpersands_line, ampersands_append]
  dsimp only
  omega

end TypeScript

end TypedClient
