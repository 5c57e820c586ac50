import TypedClient.Text.Words

/-! Words hold letters and digits only, none is empty, and there are none exactly when
the text has no letter or digit. In a row they are the letters and digits of the text.
Both cases keep this: they only change the case of letters. -/

namespace TypedClient.Text

/-! ### Letters and digits -/

theorem isAlphanum_iff {c : Char} : c.isAlphanum = true ↔
    (65 ≤ c.toNat ∧ c.toNat ≤ 90) ∨ (97 ≤ c.toNat ∧ c.toNat ≤ 122) ∨
      (48 ≤ c.toNat ∧ c.toNat ≤ 57) := by
  have h : c.isAlphanum = ((decide (65 ≤ c.toNat ∧ c.toNat ≤ 90) ||
      (decide (97 ≤ c.toNat) && decide (c.toNat ≤ 122))) ||
      (decide (48 ≤ c.toNat) && decide (c.toNat ≤ 57))) := rfl
  simp only [h, Bool.or_eq_true, Bool.and_eq_true, decide_eq_true_eq]
  omega

theorem isAlphanum_toUpper {c : Char} (h : c.isAlphanum = true) : c.toUpper.isAlphanum = true := by
  unfold Char.toUpper
  split
  · next hl =>
    have hc : 97 ≤ c.val.toNat ∧ c.val.toNat ≤ 122 := hl
    refine isAlphanum_iff.mpr (.inl ?_)
    simp only [Char.toNat, UInt32.toNat_add]
    have hd : ('A'.val - 'a'.val).toNat = 4294967264 := by decide
    omega
  · exact h

theorem isAlphanum_toLower {c : Char} (h : c.isAlphanum = true) : c.toLower.isAlphanum = true := by
  unfold Char.toLower
  split
  · next hu =>
    have hc : 65 ≤ c.val.toNat ∧ c.val.toNat ≤ 90 := hu
    refine isAlphanum_iff.mpr (.inr (.inl ?_))
    simp only [Char.toNat, UInt32.toNat_add]
    have hd : ('a'.val - 'A'.val).toNat = 32 := by decide
    omega
  · exact h

theorem toUpper_of_isUpper {c : Char} (h : c.isUpper = true) : c.toUpper = c := by
  have hu : 65 ≤ c.val.toNat ∧ c.val.toNat ≤ 90 := of_decide_eq_true h
  unfold Char.toUpper
  split
  · next hl =>
    have hc : 97 ≤ c.val.toNat ∧ c.val.toNat ≤ 122 := hl
    omega
  · rfl

/-! ### Words -/

/-- A word is not empty and holds letters and digits only. -/
def IsWord (w : List Char) : Prop := w ≠ [] ∧ ∀ c ∈ w, c.isAlphanum = true

theorem isWord_consWord {c : Char} (hc : c.isAlphanum = true) {ws : List (List Char)}
    (hws : ∀ w ∈ ws, IsWord w) : ∀ w ∈ consWord c ws, IsWord w := by
  cases ws with
  | nil => simp [consWord, IsWord, hc]
  | cons first others =>
    obtain ⟨hfirst, hothers⟩ := List.forall_mem_cons.mp hws
    refine List.forall_mem_cons.mpr ⟨⟨by simp, ?_⟩, hothers⟩
    exact List.forall_mem_cons.mpr ⟨hc, hfirst.2⟩

theorem isWord_of_mem_wordChars (cs : List Char) : ∀ w ∈ wordChars cs, IsWord w := by
  fun_induction wordChars cs with
  | case1 => simp
  | case2 c rest hc _ ih => exact isWord_consWord hc ih
  | case3 c rest hc _ ih =>
    exact List.forall_mem_cons.mpr ⟨⟨by simp, by simpa using hc⟩, ih⟩
  | case4 c rest _ ih => exact ih

theorem wordChars_eq_nil_iff {cs : List Char} :
    wordChars cs = [] ↔ ∀ c ∈ cs, c.isAlphanum = false := by
  fun_induction wordChars cs with
  | case1 => simp
  | case2 c rest hc _ ih => cases h : wordChars rest <;> simp [consWord, hc]
  | case3 c rest hc _ ih => simp [hc]
  | case4 c rest hc ih => simp [ih, hc]

theorem flatten_consWord (c : Char) (ws : List (List Char)) :
    (consWord c ws).flatten = c :: ws.flatten := by
  cases ws with
  | nil => rfl
  | cons first others => rw [consWord, List.flatten_cons, List.cons_append, List.flatten_cons]

/-- In a row the words are the letters and digits of the text. -/
theorem flatten_wordChars (cs : List Char) : (wordChars cs).flatten = cs.filter Char.isAlphanum := by
  fun_induction wordChars cs with
  | case1 => rfl
  | case2 c rest hc _ ih => rw [flatten_consWord, ih, List.filter_cons_of_pos hc]
  | case3 c rest hc _ ih =>
    rw [List.flatten_cons, ih, List.filter_cons_of_pos hc, List.singleton_append]
  | case4 c rest hc ih => rw [ih, List.filter_cons_of_neg hc]

theorem exists_wordChars_eq {c : Char} (hc : c.isAlphanum = true) (rest : List Char) :
    ∃ w ws, wordChars (c :: rest) = (c :: w) :: ws := by
  rw [wordChars, if_pos hc]
  split
  · cases wordChars rest <;> exact ⟨_, _, rfl⟩
  · exact ⟨_, _, rfl⟩

/-- A letter or digit goes in front of the word behind it, or makes a word of its own. -/
theorem wordChars_cons {c : Char} (hc : c.isAlphanum = true) (rest : List Char) :
    (joinsNext c rest = true ∧ ∃ d w ws, wordChars rest = (d :: w) :: ws ∧
      wordChars (c :: rest) = (c :: d :: w) :: ws) ∨
    (joinsNext c rest = false ∧ wordChars (c :: rest) = [c] :: wordChars rest) := by
  rw [wordChars, if_pos hc]
  cases hjoins : joinsNext c rest with
  | false => exact .inr ⟨rfl, rfl⟩
  | true =>
    cases rest with
    | nil => simp [joinsNext] at hjoins
    | cons d rest =>
      rw [joinsNext, Bool.and_eq_true] at hjoins
      obtain ⟨w, ws, hwords⟩ := exists_wordChars_eq hjoins.1 rest
      exact .inl ⟨rfl, d, w, ws, hwords, by rw [hwords]; rfl⟩

/-! ### Pascal and camel case -/

theorem IsWord.capitalize {w : List Char} (h : IsWord w) : IsWord (capitalize w) := by
  obtain ⟨hne, hw⟩ := h
  cases w with
  | nil => exact absurd rfl hne
  | cons c rest =>
    obtain ⟨hc, hrest⟩ := List.forall_mem_cons.mp hw
    exact ⟨by simp [Text.capitalize], List.forall_mem_cons.mpr ⟨isAlphanum_toUpper hc, hrest⟩⟩

theorem IsWord.lower {w : List Char} (h : IsWord w) : IsWord (w.map Char.toLower) :=
  ⟨by simpa using h.1, List.forall_mem_map.mpr fun c hc => isAlphanum_toLower (h.2 c hc)⟩

/-- Words one after the other are a word unless there are none. -/
theorem isWord_flatten {ws : List (List Char)} (hne : ws ≠ []) (hws : ∀ w ∈ ws, IsWord w) :
    IsWord ws.flatten := by
  cases ws with
  | nil => exact absurd rfl hne
  | cons first others =>
    refine ⟨?_, fun c hc => ?_⟩
    · simp [(hws first (by simp)).1]
    · obtain ⟨w, hw, hcw⟩ := List.mem_flatten.mp hc
      exact (hws w hw).2 c hcw

theorem isWord_pascalChars {cs : List Char} (h : wordChars cs ≠ []) : IsWord (pascalChars cs) := by
  refine isWord_flatten (by simpa using h) (List.forall_mem_map.mpr fun w hw => ?_)
  exact (isWord_of_mem_wordChars cs w hw).capitalize

theorem isWord_camelChars {cs : List Char} (h : wordChars cs ≠ []) : IsWord (camelChars cs) := by
  have hws := isWord_of_mem_wordChars cs
  unfold camelChars
  cases hcs : wordChars cs with
  | nil => exact absurd hcs h
  | cons first others =>
    rw [hcs] at hws
    obtain ⟨hfirst, hothers⟩ := List.forall_mem_cons.mp hws
    have hcased : ∀ w ∈ first.map Char.toLower :: others.map capitalize, IsWord w :=
      List.forall_mem_cons.mpr
        ⟨hfirst.lower, List.forall_mem_map.mpr fun w hw => (hothers w hw).capitalize⟩
    exact isWord_flatten (by simp) hcased

theorem pascalCase_isEmpty_iff {s : String} :
    (pascalCase s).isEmpty = true ↔ wordChars s.toList = [] := by
  by_cases hw : wordChars s.toList = []
  · simp [pascalCase, pascalChars, hw]
  · have hne := (isWord_pascalChars hw).1
    simp [pascalCase, hw, hne]

end TypedClient.Text
