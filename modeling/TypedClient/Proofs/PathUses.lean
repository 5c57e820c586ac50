import TypedClient.Proofs.TemplateLiteral

/-! What a path is used for. Its placeholders, the identifier that is derived from it and the literal
that fills it in are computed by three scans that know nothing of each other. They agree, since each
of them follows the one way to read the path: the first brace opens a hole, the first one behind it
closes it, and what is left over is text. -/

namespace TypedClient

open Text Route TypeScript

namespace Route

namespace Template

/-- The texts around the holes, from the first to the last. -/
def texts (t : Template) : List (List Char) := t.steps.map Prod.fst ++ [t.rest]

/-- With one word for all holes the word stands between the texts. -/
theorem expand_const (word : List Char) (t : Template) :
    t.expand id (fun _ => word) = word.intercalate t.texts := by
  obtain ⟨steps, rest⟩ := t
  induction steps with
  | nil => simp [expand_nil, texts]
  | cons step steps ih =>
    obtain ⟨text, name⟩ := step
    have hne : texts ⟨steps, rest⟩ ≠ [] := by simp [texts]
    calc
      expand id (fun _ => word) ⟨(text, name) :: steps, rest⟩
        = text ++ word ++ word.intercalate (texts ⟨steps, rest⟩) := by rw [expand_cons, ih, id]
      _ = word.intercalate (text :: texts ⟨steps, rest⟩) := (List.intercalate_cons_of_ne_nil hne).symm

end Template

/-- Where nothing is declared that can name an operation, its identifier is derived. -/
theorem operationId_of_unnamed (method : Method) (path : String) {declared : Option String}
    (h : ∀ id ∈ declared, pascalCase (trim id) = "") :
    operationId method path declared = derivedId method path := by
  cases declared with
  | none => rfl
  | some id => simp [operationId, h id rfl]

/-- The derived identifier is made of the texts of the path, with `By` between them. -/
theorem derivedId_eq (method : Method) {path : String} {t : Template}
    (h : t.Decomposes path.toList) : derivedId method path = method.lower ++
      pascalCase (String.ofList (("By".toList.intercalate t.texts).filter Char.isAlphanum)) := by
  have hwords : pathWords path.toList =
      ("By".toList.intercalate t.texts).filter Char.isAlphanum := by
    rw [pathWords_eq h]
    exact congrArg _ (t.expand_const "By".toList)
  simp only [derivedId, pascalCase, String.toList_ofList, hwords]

end Route

/-- There is one way to read a path, and all uses of the path agree on it. The placeholders are the
names of its holes. An identifier that has to be derived is the method and, in Pascal case, the
letters and digits of its texts with `By` between them. The template literal, whatever the parameters
are, has a member of the argument or the hole as written for each hole, and each text as text. -/
theorem path_uses (path : String) :
    ∃ t : Template, t.Decomposes path.toList ∧ (∀ u, u.Decomposes path.toList → u = t) ∧
      placeholders path = t.names.map String.ofList ∧
      (∀ method declared, (∀ id ∈ declared, pascalCase (trim id) = "") →
        operationId method path declared = method.lower ++
          pascalCase (String.ofList (("By".toList.intercalate t.texts).filter Char.isAlphanum))) ∧
      ∀ params, readTemplate (pathLiteral path params) = some (filled params t) := by
  have ht := Template.ofChars_decomposes path.toList
  have hunique : ∀ u : Template, u.Decomposes path.toList → u = .ofChars path.toList :=
    fun u hu => Template.decomposes_iff.mp hu
  refine ⟨.ofChars path.toList, ht, hunique, placeholders_eq ht, ?_, fun params => ?_⟩
  · intro method declared hunnamed
    rw [operationId_of_unnamed method path hunnamed, derivedId_eq method ht]
  · rw [readTemplate, (lex_pathLiteral path params).tokens_eq, literalTokens]
    exact pieces_tokens _

end TypedClient
