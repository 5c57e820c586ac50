/-! Cutting a text at the first occurrence of a character. -/

namespace TypedClient.Text

/-- What stands before and after the first `c`, or nothing when `c` does not occur. -/
def cut (c : Char) : List Char → Option (List Char × List Char)
  | [] => none
  | x :: rest =>
    if x = c then some ([], rest)
    else (cut c rest).map fun (before, after) => (x :: before, after)

theorem eq_of_cut {c : Char} {s before after : List Char} (h : cut c s = some (before, after)) :
    s = before ++ c :: after ∧ c ∉ before := by
  induction s generalizing before with
  | nil => simp [cut] at h
  | cons x rest ih =>
    by_cases hx : x = c
    · simp_all [cut]
    · rw [cut, if_neg hx, Option.map_eq_some_iff] at h
      obtain ⟨⟨b, a⟩, hb, hp⟩ := h
      obtain ⟨rfl, rfl⟩ := Prod.mk.injEq .. ▸ hp
      obtain ⟨rfl, hn⟩ := ih hb
      simp [hn, Ne.symm hx]

theorem cut_append {c : Char} {before : List Char} (h : c ∉ before) (after : List Char) :
    cut c (before ++ c :: after) = some (before, after) := by
  induction before with
  | nil => simp [cut]
  | cons x rest ih =>
    rw [List.mem_cons, not_or] at h
    simp [cut, Ne.symm h.1, ih h.2]

theorem cut_eq_none_iff {c : Char} {s : List Char} : cut c s = none ↔ c ∉ s := by
  induction s with
  | nil => simp [cut]
  | cons x rest ih =>
    by_cases hx : x = c
    · simp [cut, hx]
    · simp [cut, hx, Ne.symm hx, ih]

/-- The part after the cut is shorter than the whole. -/
theorem length_of_cut {c : Char} {s before after : List Char}
    (h : cut c s = some (before, after)) : after.length < s.length := by
  rw [(eq_of_cut h).1]
  simp
  omega

end TypedClient.Text
