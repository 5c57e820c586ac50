import TypedClient.Text.Lines

/-! The lines of a text. Line feeds end them, with one carriage return in front of each dropped, and
what stands behind the last line feed is a line unless it is empty. That settles the lines of every
text, and no line holds a line feed. -/

namespace TypedClient

namespace Text

/-- A text and its lines. Each line but the last is ended by a line feed, and so may the last be. A
carriage return in front of a line feed belongs to the ending. -/
inductive HasLines : List Char → List (List Char) → Prop
  | nil : HasLines [] []
  | last {line : List Char} (hne : line ≠ []) (hfeed : '\n' ∉ line) : HasLines line [line]
  | feed {line rest : List Char} {lines : List (List Char)} (hfeed : '\n' ∉ line)
    (hreturn : line.getLast? ≠ some '\r') (hrest : HasLines rest lines) :
    HasLines (line ++ '\n' :: rest) (line :: lines)
  | returnFeed {line rest : List Char} {lines : List (List Char)} (hfeed : '\n' ∉ line)
    (hrest : HasLines rest lines) : HasLines (line ++ '\r' :: '\n' :: rest) (line :: lines)

/-- A character that ends no line goes in front of the first line. -/
theorem HasLines.cons {c : Char} {rest line : List Char} {lines : List (List Char)} (hc : c ≠ '\n')
    (hreturn : c = '\r' → rest.head? ≠ some '\n') (h : HasLines rest (line :: lines)) :
    HasLines (c :: rest) ((c :: line) :: lines) := by
  have hcons : ∀ {cs : List Char}, '\n' ∉ cs → '\n' ∉ c :: cs :=
    fun hcs => List.not_mem_cons_of_ne_of_not_mem hc.symm hcs
  cases h with
  | last hne hfeed => exact .last (List.cons_ne_nil c _) (hcons hfeed)
  | @feed _ more _ hfeed hlast hrest =>
    have hlast' : (c :: line).getLast? ≠ some '\r' := by
      cases line with
      | nil =>
        intro hline
        exact hreturn (by simpa using hline) rfl
      | cons d line => rwa [List.getLast?_cons_cons]
    rw [← List.cons_append]
    exact .feed (hcons hfeed) hlast' hrest
  | returnFeed hfeed hrest =>
    rw [← List.cons_append]
    exact .returnFeed (hcons hfeed) hrest

theorem lineChars_eq_nil_iff {cs : List Char} : lineChars cs = [] ↔ cs = [] := by
  refine ⟨fun h => ?_, fun h => by rw [h]; rfl⟩
  unfold lineChars at h
  split at h
  · rfl
  · nomatch h
  · nomatch h
  · split at h <;> nomatch h

theorem hasLines_lineChars (cs : List Char) : HasLines cs (lineChars cs) := by
  fun_induction lineChars cs with
  | case1 => exact .nil
  | case2 rest ih =>
    rw [← List.nil_append ('\n' :: rest)]
    exact .feed List.not_mem_nil nofun ih
  | case3 rest ih =>
    rw [← List.nil_append ('\r' :: '\n' :: rest)]
    exact .returnFeed List.not_mem_nil ih
  | case4 c rest hfeed hreturn hrest ih =>
    obtain rfl := lineChars_eq_nil_iff.mp hrest
    exact .last (List.cons_ne_nil c []) (by simpa using Ne.symm hfeed)
  | case5 c rest hfeed hreturn line lines hrest ih =>
    rw [hrest] at ih
    refine ih.cons hfeed fun hc hhead => ?_
    obtain ⟨more, hmore⟩ := List.head?_eq_some_iff.mp hhead
    exact hreturn more hc hmore

theorem lineChars_cons {c : Char} {rest line : List Char} {lines : List (List Char)} (hc : c ≠ '\n')
    (hreturn : c = '\r' → rest.head? ≠ some '\n') (h : lineChars rest = line :: lines) :
    lineChars (c :: rest) = (c :: line) :: lines := by
  rw [lineChars, h]
  · exact hc
  · intro more hcr hrest
    exact hreturn hcr (by rw [hrest]; rfl)

theorem lineChars_of_notMem {line : List Char} (hne : line ≠ []) (hfeed : '\n' ∉ line) :
    lineChars line = [line] := by
  induction line with
  | nil => exact absurd rfl hne
  | cons c line ih =>
    obtain ⟨hc, hline⟩ := not_or.mp (mt List.mem_cons.mpr hfeed)
    cases line with
    | nil =>
      rw [lineChars]
      · rfl
      · exact Ne.symm hc
      · nofun
    | cons d line =>
      refine lineChars_cons (Ne.symm hc) (fun _ hd => ?_) (ih (List.cons_ne_nil d line) hline)
      exact hline (List.mem_of_mem_head? hd)

theorem lineChars_feed {line : List Char} (hfeed : '\n' ∉ line) (hreturn : line.getLast? ≠ some '\r')
    (rest : List Char) : lineChars (line ++ '\n' :: rest) = line :: lineChars rest := by
  induction line with
  | nil => rfl
  | cons c line ih =>
    obtain ⟨hc, hline⟩ := not_or.mp (mt List.mem_cons.mpr hfeed)
    cases line with
    | nil =>
      refine lineChars_cons (Ne.symm hc) (fun hcr => ?_) (ih hline nofun)
      exact absurd (by rw [hcr]; rfl) hreturn
    | cons d line =>
      rw [List.getLast?_cons_cons] at hreturn
      refine lineChars_cons (Ne.symm hc) (fun _ hd => ?_) (ih hline hreturn)
      exact hline (List.mem_of_mem_head? hd)

theorem lineChars_returnFeed {line : List Char} (hfeed : '\n' ∉ line) (rest : List Char) :
    lineChars (line ++ '\r' :: '\n' :: rest) = line :: lineChars rest := by
  induction line with
  | nil => rfl
  | cons c line ih =>
    obtain ⟨hc, hline⟩ := not_or.mp (mt List.mem_cons.mpr hfeed)
    refine lineChars_cons (Ne.symm hc) (fun _ hd => ?_) (ih hline)
    cases line with
    | nil => nomatch hd
    | cons d line => exact hline (List.mem_of_mem_head? hd)

/-- A text has its lines and no others. -/
theorem hasLines_iff {cs : List Char} {lines : List (List Char)} :
    HasLines cs lines ↔ lines = lineChars cs := by
  refine ⟨fun h => ?_, fun h => h ▸ hasLines_lineChars cs⟩
  induction h with
  | nil => rfl
  | last hne hfeed => rw [lineChars_of_notMem hne hfeed]
  | feed hfeed hreturn _ ih => rw [lineChars_feed hfeed hreturn, ih]
  | returnFeed hfeed _ ih => rw [lineChars_returnFeed hfeed, ih]

theorem HasLines.lineFeed_notMem {cs : List Char} {lines : List (List Char)} (h : HasLines cs lines) :
    ∀ line ∈ lines, '\n' ∉ line := by
  induction h with
  | nil => exact nofun
  | last _ hfeed => exact List.forall_mem_singleton.mpr hfeed
  | feed hfeed _ _ ih => exact List.forall_mem_cons.mpr ⟨hfeed, ih⟩
  | returnFeed hfeed _ ih => exact List.forall_mem_cons.mpr ⟨hfeed, ih⟩

theorem lineFeed_notMem_lineChars (cs : List Char) : ∀ line ∈ lineChars cs, '\n' ∉ line :=
  (hasLines_lineChars cs).lineFeed_notMem

end Text

end TypedClient
