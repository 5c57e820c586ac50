import TypedClient.Text.Cut

/-! Path templates: literal texts with named holes `{name}` between them. The reading of
a path is the only one in which each hole opens at the first brace and closes at the
first one after it, and no brace left in the last text is closed again. -/

namespace TypedClient.Route

open Text

/-- A path as literal texts, each followed by a hole, and a last literal text. -/
structure Template where
  steps : List (List Char × List Char)
  rest : List Char
  deriving DecidableEq

namespace Template

/-- Reads a path from left to right. -/
def ofChars (path : List Char) : Template :=
  match _open : cut '{' path with
  | none => ⟨[], path⟩
  | some (text, after) =>
    match _close : cut '}' after with
    | none => ⟨[], path⟩
    | some (name, tail) =>
      let t := ofChars tail
      ⟨(text, name) :: t.steps, t.rest⟩
termination_by path.length
decreasing_by
  have := length_of_cut _open
  have := length_of_cut _close
  omega

/-- The names of the holes, in order. -/
def names (t : Template) : List (List Char) := t.steps.map Prod.snd

/-- The path with each text and each hole replaced, in order. -/
def expand (onText onName : List Char → List Char) (t : Template) : List Char :=
  t.steps.flatMap (fun (text, name) => onText text ++ onName name) ++ onText t.rest

/-- A hole as a path spells it. -/
def hole (name : List Char) : List Char := '{' :: (name ++ ['}'])

/-- `t` is a way to read `path`: no text but the last holds an opening brace, no name a
closing one, and no opening brace of the last text has a closing one behind it. -/
structure Decomposes (t : Template) (path : List Char) : Prop where
  spelled : t.expand id hole = path
  texts : ∀ step ∈ t.steps, '{' ∉ step.1
  names : ∀ step ∈ t.steps, '}' ∉ step.2
  rest : ∀ before after, t.rest = before ++ '{' :: after → '}' ∉ after

theorem expand_cons (onText onName : List Char → List Char) (text name : List Char)
    (steps : List (List Char × List Char)) (rest : List Char) :
    expand onText onName ⟨(text, name) :: steps, rest⟩ =
      onText text ++ onName name ++ expand onText onName ⟨steps, rest⟩ := by
  simp [expand]

theorem expand_nil (onText onName : List Char → List Char) (rest : List Char) :
    expand onText onName ⟨[], rest⟩ = onText rest := by
  simp [expand]

/-- A first hole in front of a way to read what follows it. -/
theorem decomposes_cons {text name path : List Char} {steps : List (List Char × List Char)}
    {rest : List Char} :
    Decomposes ⟨(text, name) :: steps, rest⟩ path ↔
      '{' ∉ text ∧ '}' ∉ name ∧
        ∃ tail, path = text ++ '{' :: (name ++ '}' :: tail) ∧ Decomposes ⟨steps, rest⟩ tail := by
  constructor
  · intro h
    refine ⟨h.texts (text, name) (by simp), h.names (text, name) (by simp),
      expand id hole ⟨steps, rest⟩, ?_, rfl, ?_, ?_, h.rest⟩
    · rw [← h.spelled, expand_cons]
      simp [hole]
    · exact fun step hs => h.texts step (List.mem_cons_of_mem _ hs)
    · exact fun step hs => h.names step (List.mem_cons_of_mem _ hs)
  · rintro ⟨ht, hn, tail, rfl, h⟩
    refine ⟨?_, ?_, ?_, h.rest⟩
    · rw [expand_cons, h.spelled]
      simp [hole]
    · exact List.forall_mem_cons.mpr ⟨ht, h.texts⟩
    · exact List.forall_mem_cons.mpr ⟨hn, h.names⟩

/-- Without a hole the path is its last text. -/
theorem decomposes_nil {path rest : List Char} :
    Decomposes ⟨[], rest⟩ path ↔
      rest = path ∧ ∀ before after, path = before ++ '{' :: after → '}' ∉ after := by
  constructor
  · intro h
    have hp := h.spelled
    rw [expand_nil] at hp
    exact ⟨hp, hp ▸ h.rest⟩
  · rintro ⟨rfl, h⟩
    exact ⟨expand_nil .., by simp, by simp, h⟩

/-- The reading from left to right is a way to read the path. -/
theorem ofChars_decomposes (path : List Char) : (ofChars path).Decomposes path := by
  fun_induction ofChars path with
  | case1 path hopen =>
    refine decomposes_nil.mpr ⟨rfl, fun before after hp => ?_⟩
    exact absurd (hp ▸ by simp) (cut_eq_none_iff.mp hopen)
  | case2 path text after hopen hclose =>
    refine decomposes_nil.mpr ⟨rfl, fun before behind hp => ?_⟩
    obtain ⟨hpath, htext⟩ := eq_of_cut hopen
    -- the brace is the first one or stands behind it, so what follows it is a part of `after`
    have hsuffix : behind <:+ after := by
      rw [hpath, List.append_eq_append_iff] at hp
      rcases hp with ⟨mid, rfl, hm⟩ | ⟨mid, rfl, hm⟩
      · cases mid with
        | nil => exact ⟨[], by simpa using hm.symm⟩
        | cons c mid =>
          obtain ⟨_, rfl⟩ := List.cons.inj hm
          exact ⟨mid ++ ['{'], by simp⟩
      · cases mid with
        | nil => exact ⟨[], by simpa using hm⟩
        | cons c mid =>
          obtain ⟨rfl, _⟩ := List.cons.inj hm
          simp at htext
    exact fun hm => cut_eq_none_iff.mp hclose (hsuffix.subset hm)
  | case3 path text after hopen name tail hclose t ih =>
    obtain ⟨rfl, htext⟩ := eq_of_cut hopen
    obtain ⟨rfl, hname⟩ := eq_of_cut hclose
    exact decomposes_cons.mpr ⟨htext, hname, tail, rfl, ih⟩

/-- There is no other way to read a path. -/
theorem decomposes_iff {t : Template} {path : List Char} :
    t.Decomposes path ↔ t = ofChars path := by
  refine ⟨fun h => ?_, fun h => h ▸ ofChars_decomposes path⟩
  obtain ⟨steps, rest⟩ := t
  induction steps generalizing path with
  | nil =>
    obtain ⟨rfl, hrest⟩ := decomposes_nil.mp h
    unfold ofChars
    split
    · rfl
    · next text after hopen =>
      rw [cut_eq_none_iff.mpr (hrest text after (eq_of_cut hopen).1)]
  | cons step steps ih =>
    obtain ⟨text, name⟩ := step
    obtain ⟨ht, hn, tail, rfl, htail⟩ := decomposes_cons.mp h
    rw [ofChars, cut_append ht]
    dsimp only
    rw [cut_append hn]
    dsimp only
    rw [← ih htail]

end Template

end TypedClient.Route
