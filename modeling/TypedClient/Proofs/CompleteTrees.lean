import TypedClient.Json.Tree
import TypedClient.Proofs.TokenTexts

/-! The trees of whole texts. A text that is read to its end gives a tree in which nothing is missing,
every bracket is closed and every number is one; and every such tree has a text, so that no tree of
that kind is out of reach. -/

namespace TypedClient.Json

/-- Nothing is missing and every bracket is closed. -/
inductive Tree.Complete : Tree → Prop
  | null : Complete .null
  | bool (b : Bool) : Complete (.bool b)
  | number {n : Numeral} (h : n.Valid) : Complete (.number n)
  | string (s : Text) : Complete (.string s)
  | array {items : List Tree} (h : ∀ item ∈ items, Complete item) : Complete (.array items true)
  | object {entries : List (Text × Tree)} (h : ∀ entry ∈ entries, Complete entry.2) :
    Complete (.object entries true)

namespace Tree

mutual

/-- The tokens of a tree. -/
def tokens : Tree → List Token
  | .missing => [.broken]
  | .null => [.null]
  | .bool b => [.bool b]
  | .number n => [.number n]
  | .string s => [.string s]
  | .array [] _ => [.openBracket, .closeBracket]
  | .array (item :: rest) _ => .openBracket :: (item.tokens ++ moreItems rest)
  | .object [] _ => [.openBrace, .closeBrace]
  | .object ((key, value) :: rest) _ =>
    .openBrace :: .string key :: .colon :: (value.tokens ++ moreEntries rest)

/-- The tokens behind an item, up to the closing bracket. -/
def moreItems : List Tree → List Token
  | [] => [.closeBracket]
  | item :: rest => .comma :: (item.tokens ++ moreItems rest)

/-- The tokens behind an entry, up to the closing brace. -/
def moreEntries : List (Text × Tree) → List Token
  | [] => [.closeBrace]
  | (key, value) :: rest => .comma :: .string key :: .colon :: (value.tokens ++ moreEntries rest)

end

end Tree

namespace Reading

open Json.Tree

/-! ### From trees to texts -/

/-- A tree is read from its tokens inside frames, and what is behind it is left. -/
def ReadsBack (t : Tree) : Prop :=
  ∀ frames more, run .value frames (t.tokens ++ more) = run (.following t) frames more

theorem run_moreItems {rest : List Tree} (h : ∀ item ∈ rest, ReadsBack item) (value : Tree)
    (done : List Tree) (frames : List Frame) (more : List Token) :
    run (.following value) (.array done :: frames) (moreItems rest ++ more) =
      run (.following (.array ((value :: done).reverse ++ rest) true)) frames more := by
  induction rest generalizing value done with
  | nil =>
    rw [moreItems, List.append_nil]
    rfl
  | cons item rest ih =>
    obtain ⟨hitem, hrest⟩ := List.forall_mem_cons.mp h
    rw [moreItems, List.cons_append, run, List.append_assoc, hitem, ih hrest]
    simp

theorem run_moreEntries {rest : List (Text × Tree)} (h : ∀ entry ∈ rest, ReadsBack entry.2)
    (key : Text) (value : Tree) (done : List (Text × Tree)) (frames : List Frame) (more : List Token) :
    run (.following value) (.object done key :: frames) (moreEntries rest ++ more) =
      run (.following (.object (((key, value) :: done).reverse ++ rest) true)) frames more := by
  induction rest generalizing key value done with
  | nil =>
    rw [moreEntries, List.append_nil]
    rfl
  | cons entry rest ih =>
    obtain ⟨next, t⟩ := entry
    obtain ⟨hentry, hrest⟩ := List.forall_mem_cons.mp h
    rw [moreEntries, List.cons_append, List.cons_append, List.cons_append, run, run, run,
      List.append_assoc, hentry, ih hrest]
    simp

/-- In front of a first item only a closing bracket makes a difference. -/
theorem run_item {token : Token} (h : token ≠ .closeBracket) (frames : List Frame)
    (more : List Token) : run .item frames (token :: more) = run .value frames (token :: more) := by
  rw [run, run]
  rintro items frames rfl rfl
  exact h rfl

theorem run_item_tokens {t : Tree} (h : t.Complete) (frames : List Frame) (more : List Token) :
    run .item frames (t.tokens ++ more) = run .value frames (t.tokens ++ more) := by
  cases h with
  | @array items _ =>
    cases items
    all_goals
      rw [Tree.tokens, List.cons_append]
      refine run_item ?_ _ _
      nofun
  | @object entries _ =>
    cases entries
    all_goals
      rw [Tree.tokens, List.cons_append]
      refine run_item ?_ _ _
      nofun
  | _ =>
    rw [Tree.tokens, List.singleton_append]
    refine run_item ?_ _ _
    nofun

theorem readsBack {t : Tree} (h : t.Complete) : ReadsBack t := by
  intro frames more
  induction h generalizing frames more with
  | null | bool | number | string =>
    rw [Tree.tokens]
    rfl
  | @array items hitems ih =>
    cases items with
    | nil =>
      rw [Tree.tokens]
      rfl
    | cons item rest =>
      obtain ⟨hitem, hrest⟩ := List.forall_mem_cons.mp ih
      have hopen : run .value frames ((Tree.array (item :: rest) true).tokens ++ more) =
          run .item (.array [] :: frames) (item.tokens ++ (moreItems rest ++ more)) := by
        rw [Tree.tokens, List.cons_append, List.append_assoc]
        rfl
      rw [hopen, run_item_tokens (hitems item (List.mem_cons_self ..)), hitem, run_moreItems hrest]
      rfl
  | @object entries hentries ih =>
    cases entries with
    | nil =>
      rw [Tree.tokens]
      rfl
    | cons entry rest =>
      obtain ⟨key, value⟩ := entry
      obtain ⟨hvalue, hrest⟩ := List.forall_mem_cons.mp ih
      have hopen : run .value frames ((Tree.object ((key, value) :: rest) true).tokens ++ more) =
          run .value (.object [] key :: frames) (value.tokens ++ (moreEntries rest ++ more)) := by
        rw [Tree.tokens, List.cons_append, List.cons_append, List.cons_append, List.append_assoc]
        rfl
      rw [hopen, hvalue, run_moreEntries hrest]
      rfl

/-- A text with the tokens of a complete tree is read as that tree. -/
theorem ofText_of_tokens {t : Tree} (ht : t.Complete) {text : String}
    (h : Json.tokens text.toList = t.tokens) : ofText text = ⟨t, true⟩ := by
  have hrun := readsBack ht [] []
  rw [List.append_nil] at hrun
  rw [ofText, h, hrun]
  rfl

theorem valid_moreItems {rest : List Tree} (h : ∀ item ∈ rest, ∀ token ∈ item.tokens, token.Valid) :
    ∀ token ∈ moreItems rest, token.Valid := by
  induction rest with
  | nil =>
    rw [moreItems, List.forall_mem_singleton]
    trivial
  | cons item rest ih =>
    obtain ⟨hitem, hrest⟩ := List.forall_mem_cons.mp h
    rw [moreItems, List.forall_mem_cons, List.forall_mem_append]
    exact ⟨trivial, hitem, ih hrest⟩

theorem valid_moreEntries {rest : List (Text × Tree)}
    (h : ∀ entry ∈ rest, ∀ token ∈ entry.2.tokens, token.Valid) :
    ∀ token ∈ moreEntries rest, token.Valid := by
  induction rest with
  | nil =>
    rw [moreEntries, List.forall_mem_singleton]
    trivial
  | cons entry rest ih =>
    obtain ⟨hentry, hrest⟩ := List.forall_mem_cons.mp h
    rw [moreEntries, List.forall_mem_cons, List.forall_mem_cons, List.forall_mem_cons,
      List.forall_mem_append]
    exact ⟨trivial, trivial, trivial, hentry, ih hrest⟩

theorem valid_tokens {t : Tree} (h : t.Complete) : ∀ token ∈ t.tokens, token.Valid := by
  induction h with
  | null | bool | string =>
    rw [Tree.tokens, List.forall_mem_singleton]
    trivial
  | number hn =>
    rw [Tree.tokens, List.forall_mem_singleton]
    exact hn
  | @array items hitems ih =>
    cases items with
    | nil =>
      rw [Tree.tokens, List.forall_mem_cons, List.forall_mem_singleton]
      exact ⟨trivial, trivial⟩
    | cons item rest =>
      obtain ⟨hitem, hrest⟩ := List.forall_mem_cons.mp ih
      rw [Tree.tokens, List.forall_mem_cons, List.forall_mem_append]
      exact ⟨trivial, hitem, valid_moreItems hrest⟩
  | @object entries hentries ih =>
    cases entries with
    | nil =>
      rw [Tree.tokens, List.forall_mem_cons, List.forall_mem_singleton]
      exact ⟨trivial, trivial⟩
    | cons entry rest =>
      obtain ⟨hentry, hrest⟩ := List.forall_mem_cons.mp ih
      rw [Tree.tokens, List.forall_mem_cons, List.forall_mem_cons, List.forall_mem_cons,
        List.forall_mem_append]
      exact ⟨trivial, trivial, trivial, hentry, valid_moreEntries hrest⟩

/-! ### From texts to trees -/

def Frame.Complete : Frame → Prop
  | .array items => ∀ item ∈ items, item.Complete
  | .object entries _ => ∀ entry ∈ entries, entry.2.Complete

def Expect.Complete : Expect → Prop
  | .following t => t.Complete
  | .nextKey entries | .colon entries _ => ∀ entry ∈ entries, entry.2.Complete
  | _ => True

theorem complete_start {frames inner : List Frame} {token : Token} {expect : Expect}
    (hframes : ∀ frame ∈ frames, frame.Complete) (htoken : token = .broken ∨ token.Valid)
    (h : start frames token = some (expect, inner)) :
    expect.Complete ∧ ∀ frame ∈ inner, frame.Complete := by
  have hvalid : token.Valid := by
    rcases htoken with rfl | hvalid
    · nomatch h
    · exact hvalid
  cases token with
  | openBracket =>
    obtain ⟨rfl, rfl⟩ := Prod.mk.inj (Option.some.inj h)
    exact ⟨trivial, List.forall_mem_cons.mpr ⟨nofun, hframes⟩⟩
  | openBrace =>
    obtain ⟨rfl, rfl⟩ := Prod.mk.inj (Option.some.inj h)
    exact ⟨trivial, hframes⟩
  | null =>
    obtain ⟨rfl, rfl⟩ := Prod.mk.inj (Option.some.inj h)
    exact ⟨.null, hframes⟩
  | bool b =>
    obtain ⟨rfl, rfl⟩ := Prod.mk.inj (Option.some.inj h)
    exact ⟨.bool b, hframes⟩
  | number n =>
    obtain ⟨rfl, rfl⟩ := Prod.mk.inj (Option.some.inj h)
    exact ⟨.number hvalid, hframes⟩
  | string s =>
    obtain ⟨rfl, rfl⟩ := Prod.mk.inj (Option.some.inj h)
    exact ⟨.string s, hframes⟩
  | _ => nomatch h

theorem complete_array {items : List Tree} {t : Tree} (ht : t.Complete)
    (hitems : ∀ item ∈ items, item.Complete) : (Tree.array (t :: items).reverse true).Complete :=
  .array fun item hitem => List.forall_mem_cons.mpr ⟨ht, hitems⟩ item (List.mem_reverse.mp hitem)

theorem complete_object {entries : List (Text × Tree)} {key : Text} {t : Tree} (ht : t.Complete)
    (hentries : ∀ entry ∈ entries, entry.2.Complete) :
    (Tree.object ((key, t) :: entries).reverse true).Complete := by
  refine .object fun entry hentry => ?_
  rcases List.mem_cons.mp (List.mem_reverse.mp hentry) with rfl | hentry
  · exact ht
  · exact hentries entry hentry

/-- What is read in complete frames is complete, if the text does not end before the tree does. -/
theorem complete_run {expect : Expect} {frames : List Frame} {toks : List Token}
    (hexpect : expect.Complete) (hframes : ∀ frame ∈ frames, frame.Complete)
    (htoks : ∀ token ∈ toks, token = .broken ∨ token.Valid)
    (hwhole : (run expect frames toks).whole = true) : (run expect frames toks).tree.Complete := by
  fun_induction run expect frames toks with
  | case1 => exact hexpect
  | case2 t items frames rest ih =>
    obtain ⟨hitems, hframes⟩ := List.forall_mem_cons.mp hframes
    exact ih trivial (List.forall_mem_cons.mpr ⟨List.forall_mem_cons.mpr ⟨hexpect, hitems⟩, hframes⟩)
      (List.forall_mem_cons.mp htoks).2 hwhole
  | case3 t items frames rest ih =>
    obtain ⟨hitems, hframes⟩ := List.forall_mem_cons.mp hframes
    exact ih (complete_array hexpect hitems) hframes (List.forall_mem_cons.mp htoks).2 hwhole
  | case5 t entries key frames rest ih =>
    obtain ⟨hentries, hframes⟩ := List.forall_mem_cons.mp hframes
    exact ih (List.forall_mem_cons.mpr ⟨hexpect, hentries⟩) hframes (List.forall_mem_cons.mp htoks).2
      hwhole
  | case6 t entries key frames rest ih =>
    obtain ⟨hentries, hframes⟩ := List.forall_mem_cons.mp hframes
    exact ih (complete_object hexpect hentries) hframes (List.forall_mem_cons.mp htoks).2 hwhole
  | case8 items frames rest ih =>
    obtain ⟨hitems, hframes⟩ := List.forall_mem_cons.mp hframes
    refine ih (.array fun item hitem => ?_) hframes (List.forall_mem_cons.mp htoks).2 hwhole
    exact hitems item (List.mem_reverse.mp hitem)
  | case9 frames token rest _ expect inner hstart ih | case11 frames token rest expect inner hstart ih =>
    obtain ⟨htoken, htoks⟩ := List.forall_mem_cons.mp htoks
    obtain ⟨hexpect, hinner⟩ := complete_start hframes htoken hstart
    exact ih hexpect hinner htoks hwhole
  | case15 frames rest ih =>
    exact ih (.object nofun) hframes (List.forall_mem_cons.mp htoks).2 hwhole
  | case16 frames key rest ih => exact ih nofun hframes (List.forall_mem_cons.mp htoks).2 hwhole
  | case18 entries frames key rest ih =>
    exact ih hexpect hframes (List.forall_mem_cons.mp htoks).2 hwhole
  | case20 entries key frames rest ih =>
    exact ih trivial (List.forall_mem_cons.mpr ⟨hexpect, hframes⟩) (List.forall_mem_cons.mp htoks).2
      hwhole
  | _ => nomatch hwhole

end Reading

/-- The complete trees are those of whole texts. -/
theorem Tree.complete_iff (t : Tree) : t.Complete ↔ ∃ text, Reading.ofText text = ⟨t, true⟩ := by
  constructor
  · intro h
    refine ⟨String.ofList (tokenChars t.tokens), Reading.ofText_of_tokens h ?_⟩
    rw [String.toList_ofList, tokens_tokenChars (Reading.valid_tokens h)]
  · rintro ⟨text, htext⟩
    have htoks : ∀ token ∈ Json.tokens text.toList, token = .broken ∨ token.Valid :=
      fun _ => valid_of_mem_tokensWithin
    have hcomplete : (Reading.ofText text).whole = true → (Reading.ofText text).tree.Complete :=
      Reading.complete_run trivial nofun htoks
    rw [htext] at hcomplete
    exact hcomplete rfl

end TypedClient.Json
