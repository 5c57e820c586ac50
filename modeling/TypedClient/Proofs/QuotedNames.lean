import TypedClient.Proofs.Tokens

/-! Literals and keys at the front of a text. A literal is read up to the quote that closes it, with
its escapes undone, and a key is either such a literal or the longest run of characters that go on
with a word. Both are taken off whatever stands behind them, and neither holds a line break. So keys
and accesses keep names apart, whether they are written bare or quoted. -/

namespace TypedClient.TypeScript

/-! ### Literals -/

/-- Reads a literal behind its opening quote: its value, and what stands behind the closing one. -/
def readQuoted : List Char → Option (List Char × List Char)
  | [] => none
  | '\'' :: rest => some ([], rest)
  | '\\' :: c :: rest => (readQuoted rest).map fun (value, behind) => (unescape c :: value, behind)
  | c :: rest =>
    if c = '\n' || c = '\r' then none
    else (readQuoted rest).map fun (value, behind) => (c :: value, behind)

/-- Reads a literal at the front of a text. -/
def readLiteral : List Char → Option (List Char × List Char)
  | '\'' :: rest => readQuoted rest
  | _ => none

theorem readQuoted_escapeChar (c : Char) (rest : List Char) : readQuoted (escapeChar c ++ rest) =
    (readQuoted rest).map fun (value, behind) => (c :: value, behind) := by
  rcases escapeChar_cases c with ⟨hplain, hbackslash, hquote, hfeed, hreturn⟩ | ⟨d, hescape, hd, _⟩
  · rw [hplain, List.singleton_append, readQuoted]
    · simp [hfeed, hreturn]
    · exact hquote
    · intro d more h
      exact absurd h hbackslash
  · rw [hescape, List.cons_append, List.singleton_append, readQuoted, hd]

theorem readQuoted_escapes (value rest : List Char) :
    readQuoted (value.flatMap escapeChar ++ '\'' :: rest) = some (value, rest) := by
  induction value with
  | nil => rfl
  | cons c value ih =>
    rw [List.flatMap_cons, List.append_assoc, readQuoted_escapeChar, ih, Option.map_some]

/-- A literal between its quotes. -/
theorem toList_stringLiteral (value : String) :
    (stringLiteral value).toList = '\'' :: (value.toList.flatMap escapeChar ++ ['\'']) := by
  rw [stringLiteral, String.toList_ofList, literalChars]

/-- A literal is taken off the front of any text. -/
theorem readLiteral_stringLiteral (value : String) (rest : List Char) :
    readLiteral ((stringLiteral value).toList ++ rest) = some (value.toList, rest) := by
  rw [toList_stringLiteral, List.cons_append, List.append_assoc, List.singleton_append, readLiteral,
    readQuoted_escapes]

/-- Line breaks are escaped. -/
theorem lineBreak_notMem_stringLiteral (value : String) :
    ∀ c ∈ (stringLiteral value).toList, c ≠ '\n' ∧ c ≠ '\r' := by
  have hescape : ∀ c, ∀ d ∈ escapeChar c, d ≠ '\n' ∧ d ≠ '\r' := by
    intro c x hx
    rcases escapeChar_cases c with ⟨hplain, _, _, hbreak⟩ | ⟨d, hescape, _, hbreak⟩
    · rw [hplain, List.mem_singleton] at hx
      rwa [hx]
    · rw [hescape, List.mem_cons, List.mem_singleton] at hx
      rcases hx with rfl | rfl
      · decide
      · exact hbreak
  intro c hc
  simp only [toList_stringLiteral, List.mem_cons, List.mem_append, List.mem_flatMap, List.not_mem_nil,
    or_false] at hc
  rcases hc with rfl | ⟨d, _, hd⟩ | rfl
  · decide
  · exact hescape d c hd
  · decide

/-! ### Quotes inside literals -/

/-- Whether a character behind this text is escaped, `escaped` being whether the first one is: a
backslash escapes what follows, unless it is escaped itself. -/
def escapesNext (escaped : Bool) (text : List Char) : Bool :=
  text.foldl (fun escaped c => !escaped && c == '\\') escaped

/-- Behind the escape of a character nothing is escaped. -/
theorem escapesNext_escapeChar (c : Char) : escapesNext false (escapeChar c) = false := by
  rcases escapeChar_cases c with ⟨hplain, hbackslash, _⟩ | ⟨d, hescape, _⟩
  · simpa [hplain, escapesNext] using hbackslash
  · rw [hescape]
    rfl

theorem escapesNext_append (escaped : Bool) (text more : List Char) :
    escapesNext escaped (text ++ more) = escapesNext (escapesNext escaped text) more :=
  List.foldl_append

theorem escapesNext_escapes (value : List Char) :
    escapesNext false (value.flatMap escapeChar) = false := by
  induction value with
  | nil => rfl
  | cons c value ih =>
    rw [List.flatMap_cons, escapesNext_append, escapesNext_escapeChar, ih]

/-- A quote in the escape of a character is escaped. -/
theorem quote_escaped_of_escapeChar {c : Char} {before after : List Char}
    (h : escapeChar c = before ++ '\'' :: after) : escapesNext false before = true := by
  rcases escapeChar_cases c with ⟨hplain, _, hquote, _⟩ | ⟨d, hescape, _⟩
  · have hmem : '\'' ∈ [c] := by simp [← hplain, h]
    exact absurd (List.mem_singleton.mp hmem).symm hquote
  · rw [hescape] at h
    rcases before with _ | ⟨first, _ | ⟨second, before⟩⟩
    · exact absurd (List.cons.inj h).1 (by decide)
    · obtain ⟨rfl, _⟩ := List.cons.inj h
      rfl
    · simp at h

/-- Between the quotes of a literal every quote is escaped. -/
theorem quote_escaped {value before after : List Char}
    (h : value.flatMap escapeChar = before ++ '\'' :: after) : escapesNext false before = true := by
  induction value generalizing before with
  | nil => simp at h
  | cons c value ih =>
    rw [List.flatMap_cons, List.append_eq_append_iff] at h
    -- The quote stands behind the escape of the first character, or in it.
    rcases h with ⟨front, rfl, hrest⟩ | ⟨front, hescape, hrest⟩
    · rw [escapesNext_append, escapesNext_escapeChar]
      exact ih hrest
    · cases front with
      | nil =>
        have hrest : value.flatMap escapeChar = [] ++ '\'' :: after := by simpa using hrest.symm
        have hbefore := ih hrest
        nomatch hbefore
      | cons d front =>
        obtain ⟨rfl, _⟩ := List.cons.inj hrest
        exact quote_escaped_of_escapeChar hescape

/-! ### Keys -/

/-- A run of characters is split off in front of one that does not belong to it. -/
theorem takeWhile_dropWhile_append {p : Char → Bool} {front rest : List Char}
    (hfront : ∀ c ∈ front, p c = true) (hrest : rest.head?.any p = false) :
    (front ++ rest).takeWhile p = front ∧ (front ++ rest).dropWhile p = rest := by
  rw [List.takeWhile_append_of_pos hfront, List.dropWhile_append_of_pos hfront]
  cases rest with
  | nil => simp
  | cons c rest =>
    have hc : p c = false := hrest
    simp [hc]

/-- Reads a key at the front of a text: a literal, or an identifier. -/
def readKey (text : List Char) : Option (List Char × List Char) :=
  if text.head? = some '\'' then readLiteral text
  else
    let name := text.takeWhile continuesIdentifier
    if isIdentifierChars name then some (name, text.dropWhile continuesIdentifier) else none

/-- A key is taken off the front of any text that does not go on with a word. -/
theorem readKey_propertyKey (name : String) {rest : List Char} (h : startsWord rest = false) :
    readKey ((propertyKey name).toList ++ rest) = some (name.toList, rest) := by
  unfold propertyKey
  split
  · next hname =>
    obtain ⟨hne, hall⟩ := continues_of_isIdentifier hname
    have hquote : (name.toList ++ rest).head? ≠ some '\'' := by
      intro hquote
      obtain ⟨c, cs, hcs⟩ := List.exists_cons_of_ne_nil hne
      rw [hcs, List.cons_append, List.head?_cons, Option.some_inj] at hquote
      have hc := hall c (by simp [hcs])
      rw [hquote] at hc
      exact absurd hc (by decide)
    obtain ⟨htake, hdrop⟩ := takeWhile_dropWhile_append hall h
    rw [readKey, if_neg hquote]
    simp only [htake, hdrop]
    exact if_pos hname
  · have hquote : ((stringLiteral name).toList ++ rest).head? = some '\'' := by
      simp [stringLiteral, literalChars]
    rw [readKey, if_pos hquote, readLiteral_stringLiteral]

theorem lineFeed_notMem_propertyKey (name : String) : '\n' ∉ (propertyKey name).toList := by
  unfold propertyKey
  split
  · next hname =>
    intro h
    exact absurd ((continues_of_isIdentifier hname).2 '\n' h) (by decide)
  · intro h
    exact (lineBreak_notMem_stringLiteral name '\n' h).1 rfl

/-! ### Names told apart -/

theorem isIdentifier_stringLiteral (value : String) : isIdentifier (stringLiteral value) = false := by
  rw [isIdentifier, toList_stringLiteral]
  rfl

theorem stringLiteral_injective : Function.Injective stringLiteral := by
  intro name other h
  have hread := readLiteral_stringLiteral name []
  rw [h, readLiteral_stringLiteral] at hread
  exact String.toList_inj.mp (Prod.mk.inj (Option.some.inj hread)).1.symm

theorem propertyKey_injective : Function.Injective propertyKey := by
  intro name other h
  have hread := @readKey_propertyKey name [] rfl
  rw [h, readKey_propertyKey other rfl] at hread
  exact String.toList_inj.mp (Prod.mk.inj (Option.some.inj hread)).1.symm

/-- A bare access and a quoted one differ behind the object. -/
theorem bareAccess_ne_quotedAccess (object name value : String) :
    object ++ "." ++ name ≠ object ++ "[" ++ stringLiteral value ++ "]" := by
  intro h
  have hchars : object.toList ++ '.' :: name.toList =
      object.toList ++ '[' :: ((stringLiteral value).toList ++ [']']) := by
    simpa using congrArg String.toList h
  have hmark := (List.cons.inj (List.append_cancel_left hchars)).1
  exact absurd hmark (by decide)

theorem propertyAccess_injective (object : String) : Function.Injective (propertyAccess object) := by
  intro name other h
  unfold propertyAccess at h
  split at h
  · split at h
    · exact (String.append_right_inj _).mp h
    · exact absurd h (bareAccess_ne_quotedAccess object name other)
  · split at h
    · exact absurd h.symm (bareAccess_ne_quotedAccess object other name)
    · exact stringLiteral_injective ((String.append_right_inj _).mp ((String.append_left_inj _).mp h))

/-- A literal is taken off the front of any text with the value it was written for. It holds no line
break, and between its quotes none stands unescaped, nor is the closing quote escaped. Keys and
accesses keep names apart, and no name that is written bare is written like a quoted one. -/
theorem quoted_names_read_back :
    (∀ (value : String) (rest : List Char),
      readLiteral ((stringLiteral value).toList ++ rest) = some (value.toList, rest)) ∧
    (∀ value : String, '\n' ∉ (stringLiteral value).toList ∧ '\r' ∉ (stringLiteral value).toList ∧
      ∃ inside, (stringLiteral value).toList = '\'' :: (inside ++ ['\'']) ∧
        escapesNext false inside = false ∧
        ∀ before after, inside = before ++ '\'' :: after → escapesNext false before = true) ∧
    Function.Injective propertyKey ∧ (∀ object, Function.Injective (propertyAccess object)) ∧
    (∀ value, isIdentifier (stringLiteral value) = false) ∧
    ∀ object name value : String,
      object ++ "." ++ name ≠ object ++ "[" ++ stringLiteral value ++ "]" := by
  refine ⟨readLiteral_stringLiteral, fun value => ?_, propertyKey_injective, propertyAccess_injective,
    isIdentifier_stringLiteral, bareAccess_ne_quotedAccess⟩
  have hbreaks := lineBreak_notMem_stringLiteral value
  refine ⟨fun h => (hbreaks _ h).1 rfl, fun h => (hbreaks _ h).2 rfl, value.toList.flatMap escapeChar,
    toList_stringLiteral value, escapesNext_escapes value.toList, fun before after h => ?_⟩
  exact quote_escaped h

end TypedClient.TypeScript
