import TypedClient.Model.Api
import TypedClient.Proofs.Tokens
import TypedClient.Proofs.Words

/-! The names of an operation are words of the generated code: none is empty and all
their characters may stand in an identifier. The identifier of an operation always
holds a letter or digit. -/

namespace TypedClient

open Text Route

theorem Route.Method.wordChars_lower (m : Method) (rest : List Char) :
    wordChars (m.lower.toList ++ rest) ≠ [] := by
  have hany : m.lower.toList.any Char.isAlphanum = true := by cases m <;> decide
  obtain ⟨c, hc, hword⟩ := List.any_eq_true.mp hany
  intro h
  have := wordChars_eq_nil_iff.mp h c (List.mem_append_left _ hc)
  simp [hword] at this

/-- An operation is never without a word to be named by. -/
theorem Route.wordChars_operationId (m : Method) (path : String) (declared : Option String) :
    wordChars (operationId m path declared).toList ≠ [] := by
  have hderived : wordChars (derivedId m path).toList ≠ [] := by
    simpa [derivedId] using m.wordChars_lower (pascalChars (pathWords path.toList))
  unfold operationId
  split
  · split
    · exact hderived
    · next hid => exact fun h => hid (pascalCase_isEmpty_iff.mpr h)
  · exact hderived

namespace TypeScript

/-- Text that reads as one word of code. -/
def IsCodeWord (s : String) : Prop :=
  s.toList ≠ [] ∧ s.toList.all continuesIdentifier = true

theorem IsCodeWord.lexes {inHole : Bool} {s : String} (h : IsCodeWord s) :
    Lexes inHole s.toList [.named s] :=
  lex_word h.1 (List.all_eq_true.mp h.2)

theorem isCodeWord_ofList {w : List Char} (h : IsWord w) : IsCodeWord (String.ofList w) := by
  refine ⟨by simpa using h.1, List.all_eq_true.mpr fun c hc => ?_⟩
  have hc' := h.2 c (by simpa using hc)
  simp [continuesIdentifier, hc']

theorem IsCodeWord.append {s : String} (h : IsCodeWord s) {t : String}
    (ht : t.toList.all continuesIdentifier = true) : IsCodeWord (s ++ t) := by
  refine ⟨by simp [h.1], ?_⟩
  rw [String.toList_append, List.all_append, h.2, ht]
  rfl

theorem IsCodeWord.safeName {s : String} (h : IsCodeWord s) : IsCodeWord (safeName s) := by
  have hmark : IsCodeWord "_" := ⟨by decide, by decide⟩
  unfold TypeScript.safeName
  split
  · exact hmark.append h.2
  · exact h

theorem isCodeWord_functionName (op : Model.Operation) : IsCodeWord (functionName op.id) :=
  (isCodeWord_ofList (isWord_camelChars (wordChars_operationId _ _ _))).safeName

theorem isCodeWord_typeName (op : Model.Operation) : IsCodeWord (typeName op.id) :=
  (isCodeWord_ofList (isWord_pascalChars (wordChars_operationId _ _ _))).safeName

end TypeScript

end TypedClient
