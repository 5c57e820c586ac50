import Mathlib
import TypedClient.Proofs.Words

/-! How Pascal and camel case start, and how far they go together. Both start with the
first letter or digit of the text, the one in upper case, the other in lower case. Camel
case loses more: two texts may agree in camel case only, but then the first word of one of
them holds an upper case letter behind its first character. -/

namespace TypedClient.Text

/-- The first letter or digit of a text. -/
def initial (s : String) : Option Char := s.toList.find? Char.isAlphanum

/-- The first word of a text; it is empty when there is none. -/
def firstWord (s : String) : List Char := (wordChars s.toList).headD []

/-- Texts that agree in camel case, but not in Pascal case. -/
def CaseApart (a b : String) : Prop := camelCase a = camelCase b ∧ pascalCase a ≠ pascalCase b

instance (a b : String) : Decidable (CaseApart a b) :=
  inferInstanceAs (Decidable (camelCase a = camelCase b ∧ pascalCase a ≠ pascalCase b))

/-! ### The first character -/

theorem head?_flatten_wordChars (cs : List Char) :
    (wordChars cs).flatten.head? = cs.find? Char.isAlphanum := by
  rw [flatten_wordChars, List.head?_filter]

theorem wordChars_of_initial {s : String} {c : Char} (h : initial s = some c) :
    ∃ w others, wordChars s.toList = (c :: w) :: others := by
  rw [initial, ← head?_flatten_wordChars] at h
  have hwords := isWord_of_mem_wordChars s.toList
  cases hcs : wordChars s.toList with
  | nil => simp [hcs] at h
  | cons first others =>
    cases first with
    | nil => exact absurd rfl (hwords [] (by simp [hcs])).1
    | cons d w =>
      obtain rfl : d = c := by simpa [hcs] using h
      exact ⟨w, others, rfl⟩

theorem initial_eq_none_iff {s : String} : initial s = none ↔ wordChars s.toList = [] := by
  rw [wordChars_eq_nil_iff, initial, List.find?_eq_none]
  simp only [Bool.not_eq_true]

theorem isAlphanum_initial {s : String} {c : Char} (h : initial s = some c) :
    c.isAlphanum = true :=
  List.find?_some h

theorem head?_pascalCase (s : String) :
    (pascalCase s).toList.head? = (initial s).map Char.toUpper := by
  cases h : initial s with
  | none => simp [pascalCase, pascalChars, initial_eq_none_iff.mp h]
  | some c =>
    obtain ⟨w, others, hw⟩ := wordChars_of_initial h
    simp [pascalCase, pascalChars, hw, capitalize]

theorem head?_camelCase (s : String) :
    (camelCase s).toList.head? = (initial s).map Char.toLower := by
  cases h : initial s with
  | none => simp [camelCase, camelChars, initial_eq_none_iff.mp h]
  | some c =>
    obtain ⟨w, others, hw⟩ := wordChars_of_initial h
    simp [camelCase, camelChars, hw]

/-! ### From camel case back to Pascal case -/

/-- Without upper case letters inside the first word, Pascal case is camel case with its first
letter in upper case. -/
theorem capitalize_camelCase {s : String} (h : ∀ c ∈ (firstWord s).tail, c.isUpper = false) :
    capitalize (camelCase s).toList = (pascalCase s).toList := by
  cases hs : initial s with
  | none => simp [camelCase, camelChars, pascalCase, pascalChars, initial_eq_none_iff.mp hs, capitalize]
  | some c =>
    obtain ⟨w, others, hw⟩ := wordChars_of_initial hs
    have hlower : w.map Char.toLower = w.map id := by
      refine List.map_congr_left fun d hd => ?_
      have hd := h d (by simpa [firstWord, hw] using hd)
      exact Char.toLower_eq_of_not_isUpper (by simp [hd])
    simp [camelCase, camelChars, pascalCase, pascalChars, hw, capitalize, hlower]

/-- What camel case alone confuses has upper case letters inside a first word. -/
theorem CaseApart.exists_isUpper {a b : String} (h : CaseApart a b) :
    (∃ c ∈ (firstWord a).tail, c.isUpper = true) ∨ ∃ c ∈ (firstWord b).tail, c.isUpper = true := by
  by_contra hnone
  simp only [not_or, not_exists, not_and, Bool.not_eq_true] at hnone
  have hpascal : (pascalCase a).toList = (pascalCase b).toList := by
    rw [← capitalize_camelCase hnone.1, ← capitalize_camelCase hnone.2, h.1]
  exact h.2 (String.toList_inj.mp hpascal)

example : CaseApart "HTTPServer" "httpserver" := by decide

end TypedClient.Text
