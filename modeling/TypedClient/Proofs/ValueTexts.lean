import TypedClient.Proofs.CompleteTrees

/-! The texts of values, read back. The compact text of a value and its text with one entry per line
have the same tokens, those of one tree, so that a reader of texts finds the value again in both.
Numbers are left out: a floating-point number is written with the shortest digits, and which number
they stand for is another question. Entries keep their order, also where a key is repeated. -/

namespace TypedClient.Json

/-! ### Texts of tokens in front of other texts -/

/-- Characters that are read as the given tokens, whatever stands behind them. Each token takes one
unit of fuel, and there are characters enough for that. -/
structure Spells (text : List Char) (toks : List Token) : Prop where
  read : ∀ fuel rest,
    tokensWithin (fuel + toks.length) (text ++ rest) = toks ++ tokensWithin fuel rest
  length_le : toks.length ≤ text.length

namespace Spells

variable {text more gap : List Char} {toks others : List Token}

theorem append (h : Spells text toks) (hmore : Spells more others) :
    Spells (text ++ more) (toks ++ others) where
  read fuel rest := by
    have hlength : fuel + (toks ++ others).length = fuel + others.length + toks.length := by
      rw [List.length_append]
      omega
    rw [hlength, List.append_assoc, h.read, hmore.read, List.append_assoc]
  length_le := by
    rw [List.length_append, List.length_append]
    exact Nat.add_le_add h.length_le hmore.length_le

theorem spaces (h : ∀ c ∈ gap, isSpace c = true) : Spells gap [] where
  read fuel _ := tokensWithin_spaces h fuel
  length_le := Nat.zero_le _

theorem token (token : Token) (h : token.Valid) (hnumber : ∀ n, token ≠ .number n) :
    Spells token.chars [token] where
  read fuel _ := tokensWithin_chars h (nextToken_append_of_ne h hnumber) fuel
  length_le := by
    obtain ⟨c, cs, hchars, _⟩ := chars_eq_cons h
    rw [hchars]
    exact Nat.succ_le_succ (Nat.zero_le _)

theorem intercalate {α : Type} {parts : List α} {chars : α → List Char} {tokens : α → List Token}
    (hmore : Spells more others) (h : ∀ part ∈ parts, Spells (chars part) (tokens part)) :
    Spells (more.intercalate (parts.map chars)) (others.intercalate (parts.map tokens)) := by
  induction parts with
  | nil => exact spaces nofun
  | cons part rest ih =>
    obtain ⟨hpart, hrest⟩ := List.forall_mem_cons.mp h
    cases rest with
    | nil => simpa using hpart
    | cons next rest =>
      simp only [List.map_cons, List.intercalate_cons_cons] at ih ⊢
      exact (hpart.append hmore).append (ih hrest)

theorem tokens_eq (h : Spells text toks) : tokens text = toks := by
  obtain ⟨fuel, hfuel⟩ := Nat.exists_eq_add_of_le' h.length_le
  have hread := h.read fuel []
  rw [List.append_nil] at hread
  rw [tokens, hfuel, hread]
  cases fuel <;> simp [tokensWithin]

end Spells

namespace Tree

theorem tokens_array (items : List Tree) (closed : Bool) : (array items closed).tokens =
    [.openBracket] ++ [Token.comma].intercalate (items.map tokens) ++ [.closeBracket] := by
  have hmore : ∀ (item : Tree) (rest : List Tree), item.tokens ++ moreItems rest =
      [Token.comma].intercalate ((item :: rest).map tokens) ++ [.closeBracket] := by
    intro item rest
    induction rest generalizing item with
    | nil => simp [moreItems]
    | cons next rest ih => simp [moreItems, ih]
  cases items with
  | nil => rfl
  | cons item rest => rw [tokens, hmore]; rfl

/-- The tokens of an entry of an object. -/
def entryTokens (entry : Text × Tree) : List Token :=
  [.string entry.1] ++ [.colon] ++ entry.2.tokens

theorem tokens_object (entries : List (Text × Tree)) (closed : Bool) : (object entries closed).tokens =
    [.openBrace] ++ [Token.comma].intercalate (entries.map entryTokens) ++ [.closeBrace] := by
  have hmore : ∀ (entry : Text × Tree) (rest : List (Text × Tree)),
      entryTokens entry ++ moreEntries rest =
        [Token.comma].intercalate ((entry :: rest).map entryTokens) ++ [.closeBrace] := by
    intro entry rest
    induction rest generalizing entry with
    | nil => simp [moreEntries]
    | cons next rest ih =>
      have hnext : moreEntries (next :: rest) = .comma :: (entryTokens next ++ moreEntries rest) := rfl
      rw [hnext, ih]
      simp
  cases entries with
  | nil => rfl
  | cons entry rest =>
    have hentry : (object (entry :: rest) closed).tokens =
        .openBrace :: (entryTokens entry ++ moreEntries rest) := rfl
    rw [hentry, hmore]
    rfl

end Tree

/-! ### Values and their trees -/

namespace Value

/-- No number at any depth. -/
inductive Numberless : Value → Prop
  | null : Numberless null
  | bool (b : Bool) : Numberless (bool b)
  | string (s : String) : Numberless (string s)
  | array {items : List Value} (h : ∀ item ∈ items, Numberless item) : Numberless (array items)
  | object {entries : List (String × Value)} (h : ∀ entry ∈ entries, Numberless entry.2) :
    Numberless (object entries)

mutual

/-- The tree of a value without numbers. -/
def tree : Value → Tree
  | null => .null
  | bool b => .bool b
  | number _ => .missing
  | string s => .string (some s.toList)
  | array items => .array (itemTrees items) true
  | object entries => .object (entryTrees entries) true

def itemTrees : List Value → List Tree
  | [] => []
  | item :: rest => item.tree :: itemTrees rest

def entryTrees : List (String × Value) → List (Text × Tree)
  | [] => []
  | (key, value) :: rest => (some key.toList, value.tree) :: entryTrees rest

end

mutual

/-- The value of a complete tree without numbers. -/
def ofTree? : Tree → Option Value
  | .null => some null
  | .bool b => some (bool b)
  | .string (some s) => some (string (String.ofList s))
  | .array items true => (ofItems? items).map array
  | .object entries true => (ofEntries? entries).map object
  | _ => none

def ofItems? : List Tree → Option (List Value)
  | [] => some []
  | item :: rest => do return (← ofTree? item) :: (← ofItems? rest)

def ofEntries? : List (Text × Tree) → Option (List (String × Value))
  | [] => some []
  | (none, _) :: _ => none
  | (some key, item) :: rest => do
    return (String.ofList key, ← ofTree? item) :: (← ofEntries? rest)

end

/-- Reads a value without numbers. -/
def ofText? (text : String) : Option Value :=
  let reading := Reading.ofText text
  if reading.whole then ofTree? reading.tree else none

theorem itemTrees_eq (items : List Value) : itemTrees items = items.map tree := by
  induction items with
  | nil => rfl
  | cons item rest ih => rw [itemTrees, ih, List.map_cons]

/-- The tree of an entry of an object. -/
def entryTree (entry : String × Value) : Text × Tree := (some entry.1.toList, entry.2.tree)

theorem entryTrees_eq (entries : List (String × Value)) :
    entryTrees entries = entries.map entryTree := by
  induction entries with
  | nil => rfl
  | cons entry rest ih => rw [entryTrees, ih, List.map_cons]; rfl

theorem complete_tree {v : Value} (h : v.Numberless) : v.tree.Complete := by
  induction h with
  | null => exact .null
  | bool b => exact .bool b
  | string s => exact .string _
  | array _ ih =>
    rw [tree, itemTrees_eq]
    exact .array (List.forall_mem_map.mpr ih)
  | object _ ih =>
    rw [tree, entryTrees_eq]
    exact .object (List.forall_mem_map.mpr ih)

theorem ofItems?_map {items : List Value} (h : ∀ item ∈ items, ofTree? item.tree = some item) :
    ofItems? (items.map tree) = some items := by
  induction items with
  | nil => rfl
  | cons item rest ih =>
    obtain ⟨hitem, hrest⟩ := List.forall_mem_cons.mp h
    simp [ofItems?, hitem, ih hrest]

theorem ofEntries?_map {entries : List (String × Value)}
    (h : ∀ entry ∈ entries, ofTree? entry.2.tree = some entry.2) :
    ofEntries? (entries.map entryTree) = some entries := by
  induction entries with
  | nil => rfl
  | cons entry rest ih =>
    obtain ⟨hentry, hrest⟩ := List.forall_mem_cons.mp h
    simp [ofEntries?, entryTree, hentry, ih hrest]

theorem ofTree?_tree {v : Value} (h : v.Numberless) : ofTree? v.tree = some v := by
  induction h with
  | null | bool => rfl
  | string s => rw [tree, ofTree?, String.ofList_toList]
  | array _ ih =>
    rw [tree, itemTrees_eq, ofTree?, ofItems?_map ih]
    rfl
  | object _ ih =>
    rw [tree, entryTrees_eq, ofTree?, ofEntries?_map ih]
    rfl

/-- Whatever text has the tokens of a value is read as the value. -/
theorem ofText?_of_spells {v : Value} (h : v.Numberless) {text : String}
    (htext : Spells text.toList v.tree.tokens) : ofText? text = some v := by
  rw [ofText?, Reading.ofText_of_tokens (complete_tree h) htext.tokens_eq]
  exact ofTree?_tree h

/-! ### The two texts of a value -/

theorem spells_quote (s : String) : Spells (quote s).toList [.string (some s.toList)] := by
  have hquote : (quote s).toList = (Token.string (some s.toList)).chars := by
    rw [quote, String.toList_ofList]
    rfl
  rw [hquote]
  exact .token _ trivial nofun

theorem spells_bool (b : Bool) : Spells (if b then "true" else "false").toList [.bool b] := by
  cases b with
  | false => exact .token (.bool false) trivial nofun
  | true => exact .token (.bool true) trivial nofun

theorem compactItems_eq (items : List Value) : compactItems items = items.map compact := by
  induction items with
  | nil => rfl
  | cons item rest ih => rw [compactItems, ih, List.map_cons]

theorem compactEntries_eq (entries : List (String × Value)) : compactEntries entries =
    entries.map fun entry => quote entry.1 ++ ":" ++ entry.2.compact := by
  induction entries with
  | nil => rfl
  | cons entry rest ih => rw [compactEntries, ih, List.map_cons]

/-- The spaces inside brackets: in front of the first part, behind each comma and behind the last
part. -/
structure Spacing where
  front : String
  gap : String
  back : String
  front_isSpace : ∀ c ∈ front.toList, isSpace c = true
  gap_isSpace : ∀ c ∈ gap.toList, isSpace c = true
  back_isSpace : ∀ c ∈ back.toList, isSpace c = true

/-- No spaces at all. -/
def Spacing.none : Spacing := ⟨"", "", "", nofun, nofun, nofun⟩

/-- Parts in brackets. -/
def Spacing.bracket (s : Spacing) (left right : String) (parts : List String) : String :=
  left ++ s.front ++ ("," ++ s.gap).intercalate parts ++ (s.back ++ right)

theorem spells_bracket {α : Type} (s : Spacing) {left right : String} {opening closing : Token}
    {parts : List α} {text : α → String} {toks : α → List Token} (hleft : Spells left.toList [opening])
    (hright : Spells right.toList [closing])
    (h : ∀ part ∈ parts, Spells (text part).toList (toks part)) :
    Spells (s.bracket left right (parts.map text)).toList
      ([opening] ++ [Token.comma].intercalate (parts.map toks) ++ [closing]) := by
  have hcomma : Spells (",".toList ++ s.gap.toList) [.comma] :=
    (Spells.token .comma trivial nofun).append (.spaces s.gap_isSpace)
  have hparts := (hleft.append (.spaces s.front_isSpace)).append (Spells.intercalate hcomma h)
  have hall := hparts.append ((Spells.spaces s.back_isSpace).append hright)
  simpa only [Spacing.bracket, String.toList_append, String.toList_intercalate, List.map_map,
    Function.comp_def, List.append_nil, List.nil_append] using hall

theorem spells_array (s : Spacing) {items : List Value} {text : Value → String}
    (h : ∀ item ∈ items, Spells (text item).toList item.tree.tokens) :
    Spells (s.bracket "[" "]" (items.map text)).toList (array items).tree.tokens := by
  rw [tree, itemTrees_eq, Tree.tokens_array, List.map_map]
  exact spells_bracket s (.token .openBracket trivial nofun)
    (.token .closeBracket trivial nofun) h

theorem spells_object (s : Spacing) (colon : String) (hcolon : ∀ c ∈ colon.toList, isSpace c = true)
    {entries : List (String × Value)} {text : Value → String}
    (h : ∀ entry ∈ entries, Spells (text entry.2).toList entry.2.tree.tokens) :
    Spells (s.bracket r"{" r"}" (entries.map fun entry =>
      quote entry.1 ++ (":" ++ colon) ++ text entry.2)).toList (object entries).tree.tokens := by
  have hentry : ∀ entry ∈ entries, Spells (quote entry.1 ++ (":" ++ colon) ++ text entry.2).toList
      (Tree.entryTokens (entryTree entry)) := by
    intro entry hmem
    have hmark : Spells (":".toList ++ colon.toList) [.colon] :=
      (Spells.token .colon trivial nofun).append (.spaces hcolon)
    rw [String.toList_append, String.toList_append, String.toList_append]
    exact ((spells_quote entry.1).append hmark).append (h entry hmem)
  rw [tree, entryTrees_eq, Tree.tokens_object, List.map_map]
  exact spells_bracket s (.token .openBrace trivial nofun)
    (.token .closeBrace trivial nofun) hentry

theorem spells_compact {v : Value} (h : v.Numberless) : Spells v.compact.toList v.tree.tokens := by
  induction h with
  | null => exact .token .null trivial nofun
  | bool b => exact spells_bool b
  | string s => exact spells_quote s
  | array _ ih =>
    have hitems := spells_array .none ih
    simpa [Spacing.bracket, Spacing.none, compact, compactItems_eq] using hitems
  | object _ ih =>
    have hentries := spells_object .none "" nofun ih
    simpa [Spacing.bracket, Spacing.none, compact, compactEntries_eq] using hentries

/-- The line break in front of what stands at a depth. -/
def lineBreak (depth : Nat) : String := "\n" ++ String.join (List.replicate depth "  ")

theorem isSpace_lineBreak (depth : Nat) : ∀ c ∈ (lineBreak depth).toList, isSpace c = true := by
  have hjoin : ∀ c ∈ (String.join (List.replicate depth "  ")).toList, c = ' ' := by
    intro c hc
    rw [String.toList_join, List.mem_flatMap] at hc
    obtain ⟨step, hstep, hc⟩ := hc
    rw [List.eq_of_mem_replicate hstep] at hc
    simpa using hc
  intro c hc
  rw [lineBreak, String.toList_append, List.mem_append] at hc
  rcases hc with hc | hc
  · obtain rfl : c = '\n' := by simpa using hc
    rfl
  · rw [hjoin c hc]
    rfl

/-- Parts on lines of their own differ from parts on one line in spaces only. -/
theorem exists_spread_eq (left right : String) (depth : Nat) (parts : List String) :
    ∃ s : Spacing, spread left right depth parts = s.bracket left right parts := by
  cases parts with
  | nil => exact ⟨.none, by simp [spread, Spacing.bracket, Spacing.none]⟩
  | cons part rest =>
    have hinner : ∀ c ∈ (lineBreak depth ++ "  ").toList, isSpace c = true := by
      rw [String.toList_append]
      exact List.forall_mem_append.mpr ⟨isSpace_lineBreak depth, by simp [isSpace]⟩
    refine ⟨⟨lineBreak depth ++ "  ", lineBreak depth ++ "  ", lineBreak depth, hinner, hinner,
      isSpace_lineBreak depth⟩, ?_⟩
    simp [spread, Spacing.bracket, lineBreak, String.append_assoc]

theorem prettyItems_eq (depth : Nat) (items : List Value) :
    prettyItems depth items = items.map (prettyAt depth) := by
  induction items with
  | nil => rfl
  | cons item rest ih => rw [prettyItems, ih, List.map_cons]

theorem prettyEntries_eq (depth : Nat) (entries : List (String × Value)) : prettyEntries depth entries =
    entries.map fun entry => quote entry.1 ++ ": " ++ entry.2.prettyAt depth := by
  induction entries with
  | nil => rfl
  | cons entry rest ih => rw [prettyEntries, ih, List.map_cons]

theorem spells_prettyAt {v : Value} (h : v.Numberless) (depth : Nat) :
    Spells (v.prettyAt depth).toList v.tree.tokens := by
  induction h generalizing depth with
  | null =>
    rw [prettyAt]
    exact .token .null trivial nofun
  | bool b =>
    rw [prettyAt]
    exact spells_bool b
  | string s =>
    rw [prettyAt]
    exact spells_quote s
  | @array items _ ih =>
    obtain ⟨s, hs⟩ := exists_spread_eq "[" "]" depth (items.map (prettyAt (depth + 1)))
    rw [prettyAt, prettyItems_eq, hs]
    exact spells_array s fun item hitem => ih item hitem (depth + 1)
  | @object entries _ ih =>
    obtain ⟨s, hs⟩ := exists_spread_eq r"{" r"}" depth
      (entries.map fun entry => quote entry.1 ++ ": " ++ entry.2.prettyAt (depth + 1))
    rw [prettyAt, prettyEntries_eq, hs]
    exact spells_object s " " (by simp [isSpace]) fun entry hentry => ih entry hentry (depth + 1)

end Value

end TypedClient.Json
