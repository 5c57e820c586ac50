import TypedClient.Lint.Names
import TypedClient.Model.OfDocument
import TypedClient.Proofs.GeneratedNames

/-! The operations that are reported because their names are taken. Going through the
operations, the names taken so far are those of the operations passed, each under the
first operation that has it. So an operation is reported exactly when an earlier one has
the same type names, with the first such one, and as many are reported as there are
operations beyond the distinct names. -/

namespace TypedClient

open Document Route TypeScript

/-! ### Repeated keys -/

section Repeats

variable {α κ : Type} [DecidableEq κ] (key : α → κ)

/-- The elements whose key an earlier element has, each with the first element that has it. -/
def repeats (l : List α) : List (α × α) :=
  l.zipIdx.filterMap fun (e, n) =>
    ((l.take n).find? fun earlier => key earlier == key e).map fun first => (e, first)

/-- The repeats in a list behind other elements. -/
def repeatsBehind (before l : List α) : List (α × α) :=
  (l.zipIdx before.length).filterMap fun (e, n) =>
    (((before ++ l).take n).find? fun earlier => key earlier == key e).map fun first => (e, first)

theorem repeatsBehind_cons (before : List α) (e : α) (rest : List α) :
    repeatsBehind key before (e :: rest) =
      ((before.find? fun earlier => key earlier == key e).map fun first => (e, first)).toList ++
        repeatsBehind key (before ++ [e]) rest := by
  have hpassed : (before ++ e :: rest).take before.length = before := List.take_left' rfl
  have hnext : before ++ e :: rest = before ++ [e] ++ rest := by simp
  rw [repeatsBehind, List.zipIdx_cons, List.filterMap_cons]
  simp only [hpassed]
  rw [hnext, repeatsBehind, List.length_append, List.length_singleton]
  cases before.find? fun earlier => key earlier == key e <;> rfl

theorem repeats_eq (l : List α) : repeats key l = repeatsBehind key [] l := rfl

/-- Repeats and distinct keys together are all elements. -/
theorem length_repeatsBehind (before l : List α) :
    (repeatsBehind key before l).length + ((before ++ l).map key).toFinset.card =
      l.length + (before.map key).toFinset.card := by
  induction l generalizing before with
  | nil => simp [repeatsBehind]
  | cons e rest ih =>
    have hnext : before ++ e :: rest = before ++ [e] ++ rest := by simp
    have hpassed : ((before ++ [e]).map key).toFinset = insert (key e) (before.map key).toFinset := by
      ext k
      simp
    have ih := ih (before ++ [e])
    rw [← hnext, hpassed] at ih
    rw [repeatsBehind_cons, List.length_append]
    cases hfind : before.find? fun earlier => key earlier == key e with
    | none =>
      have hnew : key e ∉ (before.map key).toFinset := by
        simpa [List.find?_eq_none] using hfind
      rw [Finset.card_insert_of_notMem hnew] at ih
      simp only [Option.map_none, Option.toList_none, List.length_nil, List.length_cons]
      omega
    | some first =>
      have hmem := List.mem_of_find?_eq_some hfind
      have hkey : key first = key e := by simpa using List.find?_some hfind
      have hold : key e ∈ (before.map key).toFinset := by
        rw [List.mem_toFinset, ← hkey]
        exact List.mem_map_of_mem hmem
      rw [Finset.insert_eq_of_mem hold] at ih
      simp only [Option.map_some, Option.toList_some, List.length_cons, List.length_nil]
      omega

theorem length_repeats (l : List α) :
    (repeats key l).length = l.length - (l.map key).toFinset.card := by
  have h := length_repeatsBehind key [] l
  rw [repeats_eq]
  simp only [List.nil_append, List.map_nil, List.toFinset_nil, Finset.card_empty] at h
  omega

/-- Nothing repeats when the keys are distinct, and only then. -/
theorem repeats_eq_nil_iff (l : List α) : repeats key l = [] ↔ (l.map key).Nodup := by
  have hle := List.toFinset_card_le (l.map key)
  rw [List.length_map] at hle
  rw [← List.length_eq_zero_iff, length_repeats, ← List.dedup_eq_self]
  have hcard := List.card_toFinset (l.map key)
  constructor
  · intro h
    refine (List.dedup_sublist (l.map key)).eq_of_length ?_
    rw [← hcard, List.length_map]
    omega
  · intro h
    rw [hcard, h, List.length_map]
    omega

variable {key} in
/-- Repeats depend on which keys agree alone. -/
theorem repeats_congr {κ' : Type} [DecidableEq κ'] {key' : α → κ'}
    (h : ∀ a b, key a = key b ↔ key' a = key' b) (l : List α) : repeats key l = repeats key' l := by
  have hbeq : ∀ a b, (key a == key b) = (key' a == key' b) := by
    intro a b
    rw [Bool.eq_iff_iff, beq_iff_eq, beq_iff_eq, h]
  simp only [repeats, hbeq]

end Repeats

/-! ### Operations with the same names -/

/-- The signature of an operation of a document. -/
def Document.signature (d : Document) (settings : Config.Generation) (e : Endpoint) : Signature :=
  .ofOperation settings (.ofDocument d e)

namespace Lint

theorem responseName_signature (d : Document) (settings : Config.Generation) (e : Endpoint) :
    (d.signature settings e).responseName = nameKey e ++ "Response" := by
  rw [signature, responseName_ofOperation, typeName_eq_pascalCase]
  rfl

theorem responseName_inj {d : Document} {settings : Config.Generation} {e f : Endpoint} :
    (d.signature settings e).responseName = (d.signature settings f).responseName ↔
      nameKey e = nameKey f := by
  rw [responseName_signature, responseName_signature, String.append_left_inj]

/-- The names in `seen` are those of the operations passed, each under the first that has it. -/
def Seen (passed : List Endpoint) (seen : List (String × String)) : Prop :=
  ∀ name, seen.lookup name = (passed.find? fun e => nameKey e == name).map callSite

theorem Seen.push {passed : List Endpoint} {seen : List (String × String)} (h : Seen passed seen)
    (e : Endpoint) : Seen (passed ++ [e]) (seen ++ [(nameKey e, callSite e)]) := by
  intro name
  rw [List.lookup_append, List.find?_append, h name]
  cases passed.find? fun e => nameKey e == name with
  | some first => rfl
  | none =>
    by_cases hname : nameKey e = name
    · simp [List.lookup, hname]
    · simp [List.lookup, hname, beq_false_of_ne (Ne.symm hname)]

theorem Seen.keep {passed : List Endpoint} {seen : List (String × String)} (h : Seen passed seen)
    {e : Endpoint} {site : String} (he : seen.lookup (nameKey e) = some site) :
    Seen (passed ++ [e]) seen := by
  intro name
  rw [h name, List.find?_append]
  cases hfind : passed.find? fun e => nameKey e == name with
  | some first => rfl
  | none =>
    have hname : nameKey e ≠ name := by
      rintro rfl
      rw [h, hfind] at he
      nomatch he
    simp [hname]

theorem collisions_eq (config : Config) {passed : List Endpoint} {seen : List (String × String)}
    (h : Seen passed seen) (es : List Endpoint) :
    collisions config seen es =
      (repeatsBehind nameKey passed es).map fun (e, first) => collision config e (callSite first) := by
  induction es generalizing passed seen with
  | nil => rfl
  | cons e rest ih =>
    rw [repeatsBehind_cons, collisions, List.map_append]
    cases hfind : passed.find? fun earlier => nameKey earlier == nameKey e with
    | none =>
      have hnew : seen.lookup (nameKey e) = none := by rw [h, hfind, Option.map_none]
      simp [hnew, ih (h.push e)]
    | some first =>
      have htaken : seen.lookup (nameKey e) = some (callSite first) := by
        rw [h, hfind, Option.map_some]
      simp [htaken, ih (h.keep htaken)]

/-- The operations whose response type an earlier one declares, each with the first that does. -/
def repeatedOperations (settings : Config.Generation) (d : Document) : List (Endpoint × Endpoint) :=
  repeats (fun e => (d.signature settings e).responseName) d.endpoints

theorem duplicateOperationId_check (config : Config) (d : Document) :
    duplicateOperationId.check config d =
      (repeatedOperations config.generation d).map fun (e, first) =>
        collision config e (callSite first) := by
  have hstart : Seen [] [] := fun _ => rfl
  rw [repeatedOperations, repeats_congr (fun _ _ => responseName_inj), repeats_eq]
  exact collisions_eq config hstart d.endpoints

/-- Nothing is reported when the type names are distinct, and only then. -/
theorem duplicateOperationId_quiet_iff {config : Config} {d : Document} :
    duplicateOperationId.check config d = [] ↔ (d.endpoints.map nameKey).Nodup := by
  rw [duplicateOperationId_check, List.map_eq_nil_iff, repeatedOperations,
    repeats_congr (fun _ _ => responseName_inj), repeats_eq_nil_iff]

end Lint

end TypedClient
