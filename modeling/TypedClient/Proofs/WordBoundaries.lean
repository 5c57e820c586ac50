import TypedClient.Proofs.Casing

/-! Where the words of a text begin. Of two letters or digits with none between them the second one
begins a new word when other characters stand between them or when it is an uppercase letter behind a
lowercase one. By this rule there is one way to split a text. Where a text has letters and digits only,
a new word begins with an uppercase letter, which capitalizing leaves alone, so that Pascal case taken
once more changes nothing. -/

namespace TypedClient.Text

/-- The letters and digits of a text. -/
def alphanumerics (s : String) : String := String.ofList (s.toList.filter Char.isAlphanum)

/-- Two letters or digits of a text with none between them. -/
structure Neighbors (cs : List Char) where
  before : List Char
  left : Char
  between : List Char
  right : Char
  after : List Char
  text_eq : cs = before ++ left :: (between ++ right :: after)
  isAlphanum_left : left.isAlphanum = true
  isAlphanum_right : right.isAlphanum = true
  not_isAlphanum : ∀ c ∈ between, c.isAlphanum = false

namespace Neighbors

variable {cs : List Char}

/-- The position of the left one among the letters and digits of the text. The right one has the
next position. -/
def position (n : Neighbors cs) : Nat := n.before.countP Char.isAlphanum

/-- The right one begins a new word: another character stands between the two, or an uppercase letter
follows a lowercase one. -/
def Parted (n : Neighbors cs) : Prop :=
  n.between ≠ [] ∨ (n.left.isLower = true ∧ n.right.isUpper = true)

end Neighbors

/-- The number of the word that a character is in, by the position of the character when all words
stand in a row. Words and positions are counted from zero. -/
def wordAt : List (List Char) → Nat → Nat
  | [], _ => 0
  | w :: ws, n => if n < w.length then 0 else wordAt ws (n - w.length) + 1

/-- A text split into words. None of them is empty, in a row they are the letters and digits of the
text, and neighbors are in different words exactly when the right one begins a new word. -/
structure IsSplitting (cs : List Char) (ws : List (List Char)) : Prop where
  ne_nil : ∀ w ∈ ws, w ≠ []
  flatten_eq : ws.flatten = cs.filter Char.isAlphanum
  parted_iff : ∀ n : Neighbors cs, wordAt ws n.position ≠ wordAt ws (n.position + 1) ↔ n.Parted

/-! ### Numbers of words -/

theorem wordAt_of_lt {w : List Char} {n : Nat} (h : n < w.length) (ws : List (List Char)) :
    wordAt (w :: ws) n = 0 := by
  rw [wordAt, if_pos h]

theorem wordAt_length_add (w : List Char) (ws : List (List Char)) (n : Nat) :
    wordAt (w :: ws) (w.length + n) = wordAt ws n + 1 := by
  rw [wordAt, if_neg (by omega), Nat.add_sub_cancel_left]

/-- Behind the last character of the first word the next one begins. -/
theorem wordAt_last_ne {w : List Char} (hne : w ≠ []) (ws : List (List Char)) :
    wordAt (w :: ws) (w.length - 1) ≠ wordAt (w :: ws) (w.length - 1 + 1) := by
  have hpos := List.length_pos_iff.mpr hne
  have hnext := wordAt_length_add w ws 0
  rw [Nat.add_zero] at hnext
  rw [wordAt_of_lt (by omega), Nat.sub_add_cancel hpos, hnext]
  omega

/-- A first word is as long as another one or longer when it keeps together what the other one does. -/
theorem length_le_of_wordAt {w v : List Char} {ws vs : List (List Char)} (hne : w ≠ [])
    (h : ∀ n, n + 1 < v.length → wordAt (v :: vs) n = wordAt (v :: vs) (n + 1) →
      wordAt (w :: ws) n = wordAt (w :: ws) (n + 1)) : v.length ≤ w.length := by
  by_contra hlt
  have hpos := List.length_pos_iff.mpr hne
  refine wordAt_last_ne hne ws (h _ (by omega) ?_)
  rw [wordAt_of_lt (by omega), wordAt_of_lt (by omega)]

/-- Words with the same row are the same when they keep the same characters together. -/
theorem eq_of_wordAt {ws vs : List (List Char)} (hws : ∀ w ∈ ws, w ≠ []) (hvs : ∀ v ∈ vs, v ≠ [])
    (hflatten : ws.flatten = vs.flatten) (h : ∀ n, n + 1 < ws.flatten.length →
      (wordAt ws n = wordAt ws (n + 1) ↔ wordAt vs n = wordAt vs (n + 1))) : ws = vs := by
  induction ws generalizing vs with
  | nil =>
    cases vs with
    | nil => rfl
    | cons v vs => simp [hvs v List.mem_cons_self] at hflatten
  | cons w ws ih =>
    cases vs with
    | nil => simp [hws w List.mem_cons_self] at hflatten
    | cons v vs =>
      obtain ⟨hw, hwords⟩ := List.forall_mem_cons.mp hws
      obtain ⟨hv, hothers⟩ := List.forall_mem_cons.mp hvs
      have hlength := congrArg List.length hflatten
      simp only [List.flatten_cons, List.length_append] at hflatten hlength h
      -- A first word that ended before the other would part characters that the other keeps together.
      have hle : w.length ≤ v.length :=
        length_le_of_wordAt hv fun n hn => (h n (by omega)).mp
      have hge : v.length ≤ w.length :=
        length_le_of_wordAt hw fun n hn => (h n (by omega)).mpr
      obtain ⟨rfl, hrest⟩ := List.append_inj hflatten (by omega)
      congr 1
      refine ih hwords hothers hrest fun n hn => ?_
      have hshift := h (w.length + n) (by omega)
      rw [Nat.add_assoc] at hshift
      simpa only [wordAt_length_add, Nat.add_right_cancel_iff] using hshift

/-! ### The words of a text -/

/-- A letter or digit in front moves the others on by one and parts none of them. -/
theorem wordAt_cons_iff {c : Char} (hc : c.isAlphanum = true) (rest : List Char) (n m : Nat) :
    wordAt (wordChars (c :: rest)) (n + 1) = wordAt (wordChars (c :: rest)) (m + 1) ↔
      wordAt (wordChars rest) n = wordAt (wordChars rest) m := by
  obtain ⟨-, d, w, ws, hrest, hwords⟩ | ⟨-, hwords⟩ := wordChars_cons hc rest
  · have hshift : ∀ k, wordAt ((c :: d :: w) :: ws) (k + 1) = wordAt ((d :: w) :: ws) k := by
      intro k
      simp [wordAt]
    rw [hwords, hrest, hshift, hshift]
  · simp [hwords, wordAt]

/-- The first letter or digit is in the word of the next one when it joins it. -/
theorem wordAt_zero_iff {c : Char} (hc : c.isAlphanum = true) (rest : List Char) :
    wordAt (wordChars (c :: rest)) 0 = wordAt (wordChars (c :: rest)) 1 ↔
      joinsNext c rest = true := by
  obtain ⟨hjoins, d, w, ws, -, hwords⟩ | ⟨hjoins, hwords⟩ := wordChars_cons hc rest
  · simp [hwords, hjoins, wordAt]
  · simp [hwords, hjoins, wordAt]

theorem wordAt_ne_iff {cs : List Char} (n : Neighbors cs) :
    wordAt (wordChars cs) n.position ≠ wordAt (wordChars cs) (n.position + 1) ↔ n.Parted := by
  obtain ⟨before, c, between, d, after, rfl, hc, hd, hbetween⟩ := n
  simp only [Neighbors.position, Neighbors.Parted]
  -- A letter or digit in front moves both positions on by one, and other characters leave them.
  induction before with
  | nil =>
    rw [List.nil_append, List.countP_nil, ne_eq, wordAt_zero_iff hc]
    cases between with
    | nil => simp [joinsNext, hd]
    | cons x between => simp [joinsNext, hbetween x List.mem_cons_self]
  | cons x before ih =>
    by_cases hx : x.isAlphanum = true
    · rw [List.countP_cons_of_pos hx, List.cons_append, ne_eq, wordAt_cons_iff hx]
      exact ih
    · rw [List.countP_cons_of_neg hx, List.cons_append, wordChars, if_neg hx]
      exact ih

theorem isSplitting_wordChars (cs : List Char) : IsSplitting cs (wordChars cs) where
  ne_nil w hw := (isWord_of_mem_wordChars cs w hw).1
  flatten_eq := flatten_wordChars cs
  parted_iff := wordAt_ne_iff

/-- Each letter or digit but the last has a neighbor behind it. -/
theorem exists_neighbors {cs : List Char} {n : Nat}
    (h : n + 1 < (cs.filter Char.isAlphanum).length) : ∃ m : Neighbors cs, m.position = n := by
  obtain ⟨c, d, rest, hdrop⟩ : ∃ c d rest, (cs.filter Char.isAlphanum).drop n = c :: d :: rest :=
    ⟨_, _, _, by rw [List.drop_eq_getElem_cons (by omega), List.drop_eq_getElem_cons h]⟩
  have hsplit := (List.take_append_drop n (cs.filter Char.isAlphanum)).symm
  rw [hdrop, List.filter_eq_append_iff] at hsplit
  obtain ⟨front, back, rfl, hfront, hback⟩ := hsplit
  obtain ⟨skipped, more, rfl, hskipped, hc, hmore⟩ := List.filter_eq_cons_iff.mp hback
  obtain ⟨between, after, rfl, hbetween, hd, -⟩ := List.filter_eq_cons_iff.mp hmore
  refine ⟨⟨front ++ skipped, c, between, d, after, by simp, hc, hd, by simpa using hbetween⟩, ?_⟩
  have hlength := congrArg List.length hfront
  rw [List.length_take, ← List.countP_eq_length_filter] at hlength
  rw [Neighbors.position, List.countP_append, List.countP_eq_zero.mpr hskipped, hlength]
  omega

/-- There is one way to split a text. -/
theorem isSplitting_iff {cs : List Char} {ws : List (List Char)} :
    IsSplitting cs ws ↔ ws = wordChars cs := by
  refine ⟨fun h => ?_, fun h => h ▸ isSplitting_wordChars cs⟩
  have hwords := isSplitting_wordChars cs
  refine eq_of_wordAt h.ne_nil hwords.ne_nil (h.flatten_eq.trans hwords.flatten_eq.symm) ?_
  intro n hn
  rw [h.flatten_eq] at hn
  obtain ⟨m, rfl⟩ := exists_neighbors hn
  exact not_iff_not.mp ((h.parted_iff m).trans (hwords.parted_iff m).symm)

/-! ### Pascal and camel case -/

theorem capitalize_append {w : List Char} (hne : w ≠ []) (rest : List Char) :
    capitalize (w ++ rest) = capitalize w ++ rest := by
  cases w with
  | nil => exact absurd rfl hne
  | cons c w => rfl

theorem capitalize_capitalize (w : List Char) : capitalize (capitalize w) = capitalize w := by
  cases w with
  | nil => rfl
  | cons c w => simp [capitalize]

theorem toLower_capitalize (w : List Char) :
    (capitalize w).map Char.toLower = w.map Char.toLower := by
  cases w with
  | nil => rfl
  | cons c w => simp [capitalize]

theorem toLower_flatMap_capitalize (ws : List (List Char)) :
    (ws.flatMap capitalize).map Char.toLower = ws.flatten.map Char.toLower := by
  induction ws with
  | nil => rfl
  | cons w ws ih => simp [toLower_capitalize, ih]

/-- Pascal case changes the case of letters only. -/
theorem toLower_pascalChars (cs : List Char) :
    (pascalChars cs).map Char.toLower = (cs.filter Char.isAlphanum).map Char.toLower := by
  rw [pascalChars, toLower_flatMap_capitalize, flatten_wordChars]

/-- Camel case changes the case of letters only. -/
theorem toLower_camelChars (cs : List Char) :
    (camelChars cs).map Char.toLower = (cs.filter Char.isAlphanum).map Char.toLower := by
  rw [← flatten_wordChars, camelChars]
  cases wordChars cs with
  | nil => rfl
  | cons first others => simp [toLower_flatMap_capitalize]

/-- In a text of letters and digits every word but the first begins with an uppercase letter, so
that there is nothing to capitalize. -/
theorem capitalize_of_mem_tail {cs : List Char} (h : ∀ c ∈ cs, c.isAlphanum = true) :
    ∀ w ∈ (wordChars cs).tail, capitalize w = w := by
  induction cs with
  | nil => simp [wordChars]
  | cons c rest ih =>
    obtain ⟨hc, hrest⟩ := List.forall_mem_cons.mp h
    obtain ⟨-, d, w, ws, hbehind, hwords⟩ | ⟨hjoins, hwords⟩ := wordChars_cons hc rest
    · simpa [hwords, hbehind] using ih hrest
    · rw [hwords, List.tail_cons]
      cases rest with
      | nil => simp [wordChars]
      | cons d rest =>
        have hd : d.isAlphanum = true := hrest d List.mem_cons_self
        have hparted : c.isLower = true ∧ d.isUpper = true := by simpa [joinsNext, hd] using hjoins
        obtain ⟨w, ws, hbehind⟩ := exists_wordChars_eq hd rest
        rw [hbehind]
        refine List.forall_mem_cons.mpr ⟨?_, by simpa [hbehind] using ih hrest⟩
        rw [capitalize, toUpper_of_isUpper hparted.2]

/-- Pascal case capitalizes the words behind the first one, and then the row of all words. -/
theorem pascalChars_eq (cs : List Char) : pascalChars cs =
    capitalize ((wordChars cs).headD [] ++ (wordChars cs).tail.flatMap capitalize) := by
  have hne := isWord_of_mem_wordChars cs
  rw [pascalChars]
  cases hwords : wordChars cs with
  | nil => rfl
  | cons first others =>
    rw [hwords] at hne
    exact (capitalize_append (hne first List.mem_cons_self).1 _).symm

/-- A text of letters and digits is in Pascal case but for its first letter. -/
theorem pascalChars_of_isAlphanum {cs : List Char} (h : ∀ c ∈ cs, c.isAlphanum = true) :
    pascalChars cs = capitalize cs := by
  have htail : (wordChars cs).tail.map capitalize = (wordChars cs).tail.map id :=
    List.map_congr_left (capitalize_of_mem_tail h)
  have hrow : (wordChars cs).headD [] ++ (wordChars cs).tail.flatten = cs := by
    calc
      (wordChars cs).headD [] ++ (wordChars cs).tail.flatten = (wordChars cs).flatten := by
        cases wordChars cs <;> rfl
      _ = cs.filter Char.isAlphanum := flatten_wordChars cs
      _ = cs := List.filter_eq_self.mpr h
  rw [pascalChars_eq, List.flatMap, htail, List.map_id, hrow]

theorem isAlphanum_of_mem_pascalChars {cs : List Char} : ∀ c ∈ pascalChars cs, c.isAlphanum = true := by
  cases hwords : wordChars cs with
  | nil => simp [pascalChars, hwords]
  | cons first others => exact (isWord_pascalChars (by simp [hwords])).2

theorem pascalChars_pascalChars (cs : List Char) : pascalChars (pascalChars cs) = pascalChars cs := by
  rw [pascalChars_of_isAlphanum isAlphanum_of_mem_pascalChars, pascalChars_eq, capitalize_capitalize]

/-- There is one way to split a text into words, none of them empty, that are its letters and digits in
order and part two of these exactly when another character stood between them or an uppercase letter
follows a lowercase one. Pascal case taken once more changes nothing. Pascal and camel case are the
letters and digits of the text but for the case of letters. -/
theorem words_and_casings (s : String) :
    (∀ ws : List String, IsSplitting s.toList (ws.map String.toList) ↔ ws = words s) ∧
      pascalCase (pascalCase s) = pascalCase s ∧
      (pascalCase s).toLower = (alphanumerics s).toLower ∧
      (camelCase s).toLower = (alphanumerics s).toLower := by
  refine ⟨fun ws => ?_, ?_, ?_, ?_⟩
  · rw [isSplitting_iff, words]
    constructor
    · intro h
      rw [← h, List.map_map]
      simp
    · rintro rfl
      simp
  · simp only [pascalCase, String.toList_ofList, pascalChars_pascalChars]
  · refine String.toList_inj.mp ?_
    simp only [String.toLower, pascalCase, alphanumerics, String.toList_map, String.toList_ofList,
      toLower_pascalChars]
  · refine String.toList_inj.mp ?_
    simp only [String.toLower, camelCase, alphanumerics, String.toList_map, String.toList_ofList,
      toLower_camelChars]

example : words "getUser_by-id2Go" = ["get", "User", "by", "id2Go"] := by decide

end TypedClient.Text
