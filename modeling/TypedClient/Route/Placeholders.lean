/-! The placeholders of a path. A brace opens one when a closing brace follows
somewhere, and the placeholder ends at the first one. The scan goes from left to
right and stops at the first brace that is never closed. -/

namespace TypedClient.Route

/-- Behind a character that was found there is less of the text. -/
theorem length_drop_of_idxOf? {c : Char} {rest : List Char} {start : Nat}
    (h : rest.idxOf? c = some start) (n : Nat) : (rest.drop (start + n + 1)).length < rest.length := by
  have hstart : start < rest.length := (List.idxOf?_eq_some_iff.mp h).1
  simp only [List.length_drop]
  omega

/-- Adds the names that are found in `rest`. -/
def scanPlaceholders (names : List (List Char)) (rest : List Char) : List (List Char) :=
  match _found : rest.idxOf? '{' with
  | none => names
  | some start =>
    let after := rest.drop (start + 1)
    match after.idxOf? '}' with
    | none => names
    | some stop => scanPlaceholders (names ++ [after.take stop]) (after.drop (stop + 1))
termination_by rest.length
decreasing_by
  have := length_drop_of_idxOf? _found 0
  simp only [List.length_drop] at *
  omega

/-- The names of the placeholders of a path, in order of appearance. -/
def placeholders (path : String) : List String :=
  (scanPlaceholders [] path.toList).map String.ofList

end TypedClient.Route
