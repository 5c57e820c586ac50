import TypedClient.Proofs.DiskOperations

/-! The directories above a path are spelled by its front. The parts of each are the first parts of
the path, dots and all, and start where the path starts. So whatever directory is made for a path lies
where a front of the path leads. -/

namespace TypedClient.Files

/-! ### Segments -/

/-- The segments that are names or dots. -/
def names (parts : List (List Char)) : List String :=
  (parts.filter fun part => !part.isEmpty).map String.ofList

theorem parts_eq (path : String) : parts path = names (segments path.toList) := rfl

theorem names_append (front rest : List (List Char)) :
    names (front ++ rest) = names front ++ names rest := by
  simp [names]

theorem names_prefix {front whole : List (List Char)} (h : front <+: whole) :
    names front <+: names whole :=
  (h.filter _).map _

theorem segments_eq_splitOn (cs : List Char) : segments cs = cs.splitOn '/' := by
  induction cs with
  | nil => rfl
  | cons c rest ih =>
    rw [segments, List.splitOn_cons_eq_if_modifyHead, ih]
    by_cases hc : c = '/'
    · simp [hc]
    · have hne : rest.splitOn '/' ≠ [] := List.splitOn_ne_nil '/' rest
      cases hrest : rest.splitOn '/' with
      | nil => exact absurd hrest hne
      | cons first others => simp [hc]

theorem slash_notMem_segments {cs part : List Char} (h : part ∈ segments cs) : '/' ∉ part := by
  induction cs generalizing part with
  | nil =>
    obtain rfl : part = [] := List.mem_singleton.mp h
    simp
  | cons c rest ih =>
    rw [segments] at h
    split at h
    · rcases List.mem_cons.mp h with rfl | h
      · simp
      · exact ih h
    · next hc =>
      split at h
      · obtain rfl : part = [c] := List.mem_singleton.mp h
        simpa using Ne.symm hc
      · next first others hrest =>
        rw [hrest] at ih
        rcases List.mem_cons.mp h with rfl | h
        · simpa using ⟨Ne.symm hc, ih (List.mem_cons_self ..)⟩
        · exact ih (List.mem_cons_of_mem _ h)

theorem intercalate_segments (cs : List Char) : ['/'].intercalate (segments cs) = cs := by
  rw [segments_eq_splitOn, List.intercalate_splitOn]

theorem segments_append (front rest : List Char) :
    segments (front ++ '/' :: rest) = segments front ++ segments rest := by
  simp [segments_eq_splitOn, List.splitOn_append_cons_self]

/-- The names of segments that are joined again. -/
theorem names_segments_intercalate {parts : List (List Char)} (h : ∀ part ∈ parts, '/' ∉ part) :
    names (segments (['/'].intercalate parts)) = names parts := by
  cases parts with
  | nil => rfl
  | cons part rest => rw [segments_eq_splitOn, List.splitOn_intercalate '/' h (by simp)]

/-! ### Fronts -/

/-- One path spells the front of another: it starts in the same place and has the first of its
parts. -/
structure IsFront (front path : String) : Prop where
  start : isAbsolute front = isAbsolute path
  parts : parts front <+: parts path

theorem IsFront.refl (path : String) : IsFront path path := ⟨rfl, List.prefix_rfl⟩

theorem IsFront.trans {p q r : String} (h : IsFront p q) (k : IsFront q r) : IsFront p r :=
  ⟨h.start.trans k.start, h.parts.trans k.parts⟩

theorem intercalate_prefix {front whole : List (List Char)} (h : front <+: whole) :
    ['/'].intercalate front <+: ['/'].intercalate whole := by
  obtain ⟨rest, rfl⟩ := h
  induction front with
  | nil => simp
  | cons part front ih =>
    cases front with
    | nil => cases rest <;> simp
    | cons next front =>
      rw [List.cons_append, List.cons_append, List.intercalate_cons_cons, List.intercalate_cons_cons]
      simpa using ih

/-- The four ways in which a path starts. -/
theorem parse_eq (cs : List Char) :
    (∃ rest, cs = '/' :: rest ∧ parse cs = (.root, segments rest)) ∨
      (∃ rest, cs = '.' :: '/' :: rest ∧ parse cs = (.dot, [] :: segments rest)) ∨
      (cs = ['.'] ∧ parse cs = (.dot, [])) ∨
      (cs.head? ≠ some '/' ∧ parse cs = (.relative, segments cs)) := by
  unfold parse
  split
  · exact .inl ⟨_, rfl, rfl⟩
  · exact .inr (.inl ⟨_, rfl, rfl⟩)
  · exact .inr (.inr (.inl ⟨rfl, rfl⟩))
  · next hroot _ _ =>
    refine .inr (.inr (.inr ⟨fun hhead => ?_, rfl⟩))
    cases cs with
    | nil => nomatch hhead
    | cons c rest => exact hroot rest (by rw [Option.some.inj hhead])

theorem toList_ofParts (start : Start) (front : List (List Char)) :
    (ofParts start front.reverse).toList = start.text ++ ['/'].intercalate front := by
  simp [ofParts]

/-- The start of a path with some of the segments behind it spells a front of the path. -/
theorem isFront_ofParts {path : String} {front : List (List Char)}
    (h : front <+: (parse path.toList).2) :
    IsFront (ofParts (parse path.toList).1 front.reverse) path := by
  have hslash : ∀ {cs : List Char}, front <+: segments cs → ∀ part ∈ front, '/' ∉ part :=
    fun hfront part hpart => slash_notMem_segments (hfront.subset hpart)
  rcases parse_eq path.toList with ⟨rest, hpath, hparse⟩ | ⟨rest, hpath, hparse⟩ | ⟨hpath, hparse⟩ |
    ⟨hpath, hparse⟩
  · rw [hparse] at h ⊢
    refine ⟨?_, ?_⟩
    · simp [isAbsolute, toList_ofParts, hpath, Start.text]
    · have hfront : names (segments ('/' :: ['/'].intercalate front)) = names front :=
        names_segments_intercalate (hslash h)
      have hwhole : names (segments ('/' :: rest)) = names (segments rest) := rfl
      rw [parts_eq, parts_eq, toList_ofParts, hpath, hwhole]
      exact hfront ▸ names_prefix h
  · rw [hparse] at h ⊢
    refine ⟨by simp [isAbsolute, toList_ofParts, hpath, Start.text], ?_⟩
    have hdot : ∀ cs, names (segments ('.' :: '/' :: cs)) = "." :: names (segments cs) :=
      fun cs => congrArg names (segments_append ['.'] cs)
    rw [parts_eq, parts_eq, toList_ofParts, hpath, hdot]
    have hfront : front <+: [] :: segments rest := h
    -- Behind the dot the first segment is empty.
    match front, hfront with
    | [], _ => exact ⟨names (segments rest), rfl⟩
    | [part], hfront =>
      obtain ⟨rfl, _⟩ := List.cons_prefix_cons.mp hfront
      exact ⟨names (segments rest), rfl⟩
    | part :: next :: more, hfront =>
      obtain ⟨rfl, hmore⟩ := List.cons_prefix_cons.mp hfront
      have hnext : names (segments (Start.dot.text ++ ['/'].intercalate ([] :: next :: more))) =
          "." :: names (segments (['/'].intercalate (next :: more))) := by
        rw [List.intercalate_cons_cons]
        exact hdot _
      rw [hnext, names_segments_intercalate fun part hpart => slash_notMem_segments (hmore.subset hpart)]
      exact List.cons_prefix_cons.mpr ⟨rfl, names_prefix hmore⟩
  · rw [hparse] at h ⊢
    obtain rfl : front = [] := List.prefix_nil.mp h
    have hsame : ofParts .dot [] = path := String.ext hpath.symm
    exact hsame ▸ .refl path
  · rw [hparse] at h ⊢
    have hchars : (ofParts .relative front.reverse).toList = ['/'].intercalate front :=
      toList_ofParts .relative front
    refine ⟨?_, ?_⟩
    · have hprefix : ['/'].intercalate front <+: path.toList := by
        simpa [intercalate_segments] using intercalate_prefix h
      obtain ⟨more, hmore⟩ := hprefix
      have hfront : (['/'].intercalate front).head? ≠ some '/' := by
        intro hhead
        exact hpath (by rw [← hmore, List.head?_append, hhead]; rfl)
      simp [isAbsolute, hchars, hfront, hpath]
    · rw [parts_eq, parts_eq, hchars, names_segments_intercalate (hslash h)]
      exact names_prefix h

theorem suffix_of_mem_upwards {parts xs : List (List Char)} (h : xs ∈ upwards parts) : xs <:+ parts := by
  induction parts with
  | nil => nomatch h
  | cons part rest ih =>
    rw [upwards] at h
    split at h
    · exact (ih h).trans (List.suffix_cons part rest)
    · rcases List.mem_cons.mp h with rfl | h
      · exact List.suffix_rfl
      · exact (ih h).trans (List.suffix_cons part rest)

theorem isFront_of_suffix {path : String} {back : List (List Char)}
    (h : back <:+ (parse path.toList).2.reverse) :
    IsFront (ofParts (parse path.toList).1 back) path := by
  have hfront : back.reverse <+: (parse path.toList).2 := by
    rw [← List.reverse_suffix]
    simpa using h
  simpa using isFront_ofParts hfront

/-- The directory that holds a path has no name or is a front of it. -/
theorem isFront_of_parent? {path dir : String} (h : parent? path = some dir) :
    dir.isEmpty = true ∨ IsFront dir path := by
  have hsuffix : ∀ xs ∈ upwards (parse path.toList).2.reverse, xs <:+ (parse path.toList).2.reverse :=
    fun xs => suffix_of_mem_upwards
  unfold parent? at h
  dsimp only at h
  split at h
  · next hupwards =>
    obtain rfl := Option.some.inj h
    exact .inr (isFront_of_suffix (hsuffix _ (by simp [hupwards])))
  · obtain rfl := Option.some.inj h
    exact .inr (isFront_of_suffix (List.nil_suffix ..))
  · obtain rfl := Option.some.inj h
    exact .inl rfl
  · nomatch h

/-- The directories above a path are fronts of it. -/
theorem isFront_of_mem_ancestors {path above : String} (h : above ∈ ancestors path) :
    IsFront above path := by
  unfold ancestors at h
  obtain ⟨xs, hxs, rfl⟩ := List.mem_map.mp h
  exact isFront_of_suffix (suffix_of_mem_upwards (List.mem_of_mem_drop hxs))

/-- A path below a base has the base as a front. -/
theorem isFront_join {base path : String} (hbase : base.isEmpty = false)
    (hpath : isAbsolute path = false) : IsFront base (join base path) := by
  have hchars : base.toList ≠ [] := by simpa using hbase
  have hstart : ∀ more : List Char,
      isAbsolute base = ((base.toList ++ more).head? == some '/') := by
    intro more
    rw [isAbsolute]
    cases hbase' : base.toList with
    | nil => exact absurd hbase' hchars
    | cons c rest => rfl
  unfold join
  rw [if_neg (by simp [hbase, hpath])]
  split
  · next hslash =>
    obtain ⟨front, hfront⟩ := List.getLast?_eq_some_iff.mp (eq_of_beq hslash)
    have hnames : ∀ rest : List Char, names (segments (front ++ '/' :: rest)) =
        names (segments front) ++ names (segments rest) :=
      fun rest => by rw [segments_append, names_append]
    refine ⟨by rw [hstart path.toList, isAbsolute, String.toList_append], ?_⟩
    rw [parts_eq, parts_eq, String.toList_append, hfront, List.append_assoc, List.singleton_append,
      hnames, hnames]
    exact (List.prefix_append_right_inj _).mpr List.nil_prefix
  · have hjoined : (base ++ "/" ++ path).toList = base.toList ++ '/' :: path.toList := by simp
    refine ⟨by rw [hstart ('/' :: path.toList), isAbsolute, hjoined], ?_⟩
    rw [parts_eq, parts_eq, hjoined, segments_append, names_append]
    exact List.prefix_append ..

end TypedClient.Files
