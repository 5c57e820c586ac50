import TypedClient.TypeScript.Name

/-! The lexical reading of generated code: words, single-quoted literals with their
escapes undone, marks, and template literals with code in their holes. Spaces and line
ends only separate. What the printers of names and literals write is read back as the one
token it stands for, whatever follows, as long as no word goes on. -/

namespace TypedClient.TypeScript

/-- A lexical element. Inside a template literal every character of its text is an element. -/
inductive Token
  /-- A run of letters, digits, `_` and `$`. -/
  | word (name : List Char)
  | quoted (value : List Char)
  | mark (c : Char)
  /-- Either end of a template literal. -/
  | backquote
  | text (c : Char)
  /-- The start of a hole in a template literal. -/
  | opening
  | closing
  deriving DecidableEq

/-- Whether a character of code is an element of its own. -/
def isMark (inHole : Bool) (c : Char) : Bool :=
  !continuesIdentifier c && c != ' ' && c != '\n' && c != '\'' && c != (if inHole then '}' else '`')

/-- Where a reader of code stands. Code and literals are inside a hole of a template literal or
outside of any. -/
inductive Mode
  | code (inHole : Bool)
  | quoted (inHole : Bool)
  | escaped (inHole : Bool)
  | template
  | templateEscaped
  /-- Behind the dollar sign that starts a hole. -/
  | opening

/-- Whether a word can go on here. -/
def startsWord (text : List Char) : Bool := text.head?.any continuesIdentifier

/-- Puts a character in front of the word that `rest` starts with, or makes it a word. -/
def consWord (c : Char) (rest : List Char) (tokens : List Token) : List Token :=
  match startsWord rest, tokens with
  | true, .word name :: tokens => .word (c :: name) :: tokens
  | _, tokens => .word [c] :: tokens

def consQuoted (c : Char) : List Token → List Token
  | .quoted value :: tokens => .quoted (c :: value) :: tokens
  | tokens => tokens

/-- The character that an escape stands for. -/
def unescape (c : Char) : Char := if c = 'n' then '\n' else if c = 'r' then '\r' else c

/-- Reads code from left to right. A literal must be closed, and one in single quotes holds no
line break. -/
def lex : Mode → List Char → Option (List Token)
  | .code false, [] => some []
  | _, [] => none
  | .code inHole, c :: rest =>
    if continuesIdentifier c then (lex (.code inHole) rest).map (consWord c rest)
    else if c = ' ' || c = '\n' then lex (.code inHole) rest
    else if c = '\'' then lex (.quoted inHole) rest
    else if c = '`' && !inHole then (lex .template rest).map (.backquote :: ·)
    else if c = '}' && inHole then (lex .template rest).map (.closing :: ·)
    else (lex (.code inHole) rest).map (.mark c :: ·)
  | .quoted inHole, c :: rest =>
    if c = '\'' then (lex (.code inHole) rest).map (.quoted [] :: ·)
    else if c = '\\' then lex (.escaped inHole) rest
    else if c = '\n' || c = '\r' then none
    else (lex (.quoted inHole) rest).map (consQuoted c)
  | .escaped inHole, c :: rest => (lex (.quoted inHole) rest).map (consQuoted (unescape c))
  | .template, c :: rest =>
    if c = '`' then (lex (.code false) rest).map (.backquote :: ·)
    else if c = '\\' then lex .templateEscaped rest
    else if c = '$' && rest.head? = some '{' then lex .opening rest
    else (lex .template rest).map (.text c :: ·)
  | .templateEscaped, c :: rest => (lex .template rest).map (.text c :: ·)
  | .opening, _ :: rest => (lex (.code true) rest).map (.opening :: ·)

section Steps

variable (inHole : Bool) (c : Char) (rest : List Char)

theorem lex_nil : lex (.code false) [] = some [] := rfl

theorem lex_code : lex (.code inHole) (c :: rest) =
    if continuesIdentifier c then (lex (.code inHole) rest).map (consWord c rest)
    else if c = ' ' || c = '\n' then lex (.code inHole) rest
    else if c = '\'' then lex (.quoted inHole) rest
    else if c = '`' && !inHole then (lex .template rest).map (.backquote :: ·)
    else if c = '}' && inHole then (lex .template rest).map (.closing :: ·)
    else (lex (.code inHole) rest).map (.mark c :: ·) := by
  cases inHole <;> rfl

theorem lex_quoted : lex (.quoted inHole) (c :: rest) =
    if c = '\'' then (lex (.code inHole) rest).map (.quoted [] :: ·)
    else if c = '\\' then lex (.escaped inHole) rest
    else if c = '\n' || c = '\r' then none
    else (lex (.quoted inHole) rest).map (consQuoted c) := rfl

theorem lex_escapedQuoted : lex (.escaped inHole) (c :: rest) =
    (lex (.quoted inHole) rest).map (consQuoted (unescape c)) := rfl

theorem lex_template : lex .template (c :: rest) =
    if c = '`' then (lex (.code false) rest).map (.backquote :: ·)
    else if c = '\\' then lex .templateEscaped rest
    else if c = '$' && rest.head? = some '{' then lex .opening rest
    else (lex .template rest).map (.text c :: ·) := rfl

theorem lex_templateEscaped : lex .templateEscaped (c :: rest) =
    (lex .template rest).map (.text c :: ·) := rfl

theorem lex_opening : lex .opening (c :: rest) =
    (lex (.code true) rest).map (.opening :: ·) := rfl

end Steps

/-- A given word. -/
def Token.named (name : String) : Token := .word name.toList

/-- The elements of a piece of code. -/
def tokens (code : String) : Option (List Token) := lex (.code false) code.toList

/-- `text` reads as `tokens` in front of anything that does not go on with a word. -/
def Lexes (inHole : Bool) (text : List Char) (tokens : List Token) : Prop :=
  ∀ rest, startsWord rest = false →
    lex (.code inHole) (text ++ rest) = (lex (.code inHole) rest).map (tokens ++ ·)

variable {inHole : Bool}

theorem startsWord_append {t u : List Char} (ht : startsWord t = false) (hu : startsWord u = false) :
    startsWord (t ++ u) = false := by
  cases t with
  | nil => exact hu
  | cons c t => exact ht

theorem map_append_map (x : Option (List Token)) (ts us : List Token) :
    (x.map (us ++ ·)).map (ts ++ ·) = x.map (ts ++ us ++ ·) := by
  cases x <;> simp

theorem map_append_map_cons (x : Option (List Token)) (t : Token) (us : List Token) :
    (x.map (us ++ ·)).map (t :: ·) = x.map (t :: us ++ ·) := by
  cases x <;> rfl

/-! ### Code without literals -/

/-- Code that no literal starts in. -/
def isPlain (t : List Char) : Bool := t.all fun c => c != '\'' && c != '`'

/-- Whether a word goes on from the first text into the second. -/
def joins (t u : List Char) : Bool := t.getLast?.any continuesIdentifier && startsWord u

theorem joins_cons {c : Char} {t u : List Char} (hj : joins (c :: t) u = false) :
    joins t u = false := by
  cases t with
  | nil => rfl
  | cons d t => simpa [joins] using hj

theorem lex_starts {t : List Char} {ts : List Token} (hs : startsWord t = true)
    (h : lex (.code inHole) t = some ts) : ∃ name us, ts = .word name :: us := by
  cases t with
  | nil => simp [startsWord] at hs
  | cons c t =>
    have hc : continuesIdentifier c = true := by simpa [startsWord] using hs
    rw [lex_code, if_pos hc] at h
    obtain ⟨us, _, rfl⟩ := Option.map_eq_some_iff.mp h
    unfold consWord
    split
    · exact ⟨_, _, rfl⟩
    · exact ⟨_, _, rfl⟩

/-- A word is put in front in the same way when more text follows. -/
theorem consWord_append {c : Char} (hc : continuesIdentifier c = true) {t rest : List Char}
    {ts : List Token} (h : lex (.code false) t = some ts) (hj : joins (c :: t) rest = false)
    (us : List Token) : consWord c (t ++ rest) (ts ++ us) = consWord c t ts ++ us := by
  cases t with
  | nil =>
    have hr : startsWord rest = false := by simpa [joins, hc] using hj
    have hn : startsWord [] = false := rfl
    obtain rfl : ts = [] := by simpa [lex_nil, eq_comm] using h
    simp [consWord, hr, hn]
  | cons d t =>
    cases hd : startsWord (d :: t) with
    | true =>
      obtain ⟨name, vs, rfl⟩ := lex_starts hd h
      have hd' : startsWord (d :: (t ++ rest)) = true := hd
      simp [consWord, hd, hd']
    | false =>
      have hd' : startsWord (d :: (t ++ rest)) = false := hd
      simp [consWord, hd, hd']

/-- What is read of plain code stays when text follows that does not go on with a word. -/
theorem lex_plain {t : List Char} {ts : List Token} (hp : isPlain t = true)
    (h : lex (.code false) t = some ts) {rest : List Char} (hj : joins t rest = false) :
    lex (.code false) (t ++ rest) = (lex (.code false) rest).map (ts ++ ·) := by
  induction t generalizing ts with
  | nil =>
    obtain rfl : ts = [] := by simpa [lex_nil, eq_comm] using h
    simp
  | cons c t ih =>
    simp only [isPlain, List.all_cons, Bool.and_eq_true, bne_iff_ne] at hp
    obtain ⟨⟨hq, hb⟩, hp⟩ := hp
    have hrest : ∀ us, lex (.code false) t = some us →
        lex (.code false) (t ++ rest) = (lex (.code false) rest).map (us ++ ·) :=
      fun us hus => ih hp hus (joins_cons hj)
    rw [lex_code] at h
    rw [List.cons_append, lex_code]
    by_cases hc : continuesIdentifier c = true
    · rw [if_pos hc] at h ⊢
      obtain ⟨us, hus, rfl⟩ := Option.map_eq_some_iff.mp h
      rw [hrest us hus, Option.map_map]
      congr 1
      funext ws
      exact consWord_append hc hus hj ws
    rw [if_neg hc] at h ⊢
    by_cases hs : (c = ' ' || c = '\n') = true
    · rw [if_pos hs] at h ⊢
      exact hrest ts h
    · rw [if_neg hs, if_neg hq, if_neg (by simp [hb]), if_neg (by simp)] at h ⊢
      obtain ⟨us, hus, rfl⟩ := Option.map_eq_some_iff.mp h
      rw [hrest us hus, map_append_map_cons]

namespace Lexes

theorem nil : Lexes inHole [] [] := fun rest _ => by simp

theorem append {t u : List Char} {ts us : List Token} (ht : Lexes inHole t ts)
    (hu : Lexes inHole u us) (hb : startsWord u = false) : Lexes inHole (t ++ u) (ts ++ us) := by
  intro rest hr
  rw [List.append_assoc, ht _ (startsWord_append hb hr), hu rest hr, map_append_map]

theorem space {u : List Char} {us : List Token} (hu : Lexes inHole u us) :
    Lexes inHole (' ' :: u) us := by
  intro rest hr
  have hs : continuesIdentifier ' ' = false := by decide
  rw [List.cons_append, lex_code, if_neg (by simp [hs]), if_pos (by decide), hu rest hr]

theorem mark {c : Char} (hc : isMark inHole c = true) {u : List Char} {us : List Token}
    (hu : Lexes inHole u us) : Lexes inHole (c :: u) (.mark c :: us) := by
  intro rest hr
  simp only [isMark, Bool.and_eq_true, Bool.not_eq_true', bne_iff_ne] at hc
  obtain ⟨⟨⟨⟨hw, hs⟩, hn⟩, hq⟩, hl⟩ := hc
  rw [List.cons_append, lex_code, if_neg (by simp [hw]), if_neg (by simp [hs, hn]), if_neg hq, hu rest hr]
  cases inHole <;> simp_all [Option.map_map, Function.comp_def]

theorem plain {t : List Char} {ts : List Token} (hp : isPlain t = true)
    (ht : lex (.code false) t = some ts) : Lexes false t ts :=
  fun _ hr => lex_plain hp ht (by simp [joins, hr])

/-- Plain code in front, where words may follow. -/
theorem after {t u : List Char} {ts us : List Token} (hp : isPlain t = true)
    (ht : lex (.code false) t = some ts) (hu : Lexes false u us) (hj : joins t u = false) :
    Lexes false (t ++ u) (ts ++ us) := by
  intro rest hr
  have hjoins : joins t (u ++ rest) = false := by
    cases u with
    | nil => simp [joins, hr]
    | cons c u => exact hj
  rw [List.append_assoc, lex_plain hp ht hjoins, hu rest hr, map_append_map]

/-- Whole code: nothing follows. -/
theorem tokens_eq {code : String} {ts : List Token} (h : Lexes false code.toList ts) :
    tokens code = some ts := by
  have := h [] rfl
  simpa [tokens, lex_nil] using this

end Lexes

/-! ### Words -/

theorem continues_of_starts {c : Char} (h : startsIdentifier c = true) :
    continuesIdentifier c = true := by
  simp only [startsIdentifier, continuesIdentifier, Bool.or_eq_true, Char.isAlphanum] at h ⊢
  rcases h with (h | h) | h
  · exact .inl (.inl (.inl h))
  · exact .inl (.inr h)
  · exact .inr h

theorem lex_word {w : List Char} (hne : w ≠ []) (hw : ∀ c ∈ w, continuesIdentifier c = true) :
    Lexes inHole w [.word w] := by
  intro rest hr
  induction w with
  | nil => exact absurd rfl hne
  | cons c w ih =>
    have hc := hw c (by simp)
    rw [List.cons_append, lex_code, if_pos hc]
    cases w with
    | nil =>
      congr 1
      funext ts
      simp [consWord, hr]
    | cons d w =>
      rw [ih (by simp) (fun x hx => hw x (by simp [hx])), Option.map_map]
      congr 1
      funext ts
      have hd := hw d (by simp)
      simp [consWord, startsWord, hd]

/-- The characters of an identifier. -/
theorem continues_of_isIdentifier {name : String} (h : isIdentifier name = true) :
    name.toList ≠ [] ∧ ∀ c ∈ name.toList, continuesIdentifier c = true := by
  rw [isIdentifier] at h
  cases hn : name.toList with
  | nil => simp [hn, isIdentifierChars] at h
  | cons c rest =>
    simp only [hn, isIdentifierChars, Bool.and_eq_true, List.all_eq_true] at h
    refine ⟨by simp, fun x hx => ?_⟩
    rcases List.mem_cons.mp hx with rfl | hx
    · exact continues_of_starts h.1
    · exact h.2 x hx

theorem lex_identifier {name : String} (h : isIdentifier name = true) :
    Lexes inHole name.toList [.word name.toList] :=
  lex_word (continues_of_isIdentifier h).1 (continues_of_isIdentifier h).2

/-! ### Literals -/

/-- A character stands for itself, or a backslash and another character stand for it. -/
theorem escapeChar_cases (c : Char) :
    (escapeChar c = [c] ∧ c ≠ '\\' ∧ c ≠ '\'' ∧ c ≠ '\n' ∧ c ≠ '\r') ∨
      ∃ d, escapeChar c = ['\\', d] ∧ unescape d = c ∧ d ≠ '\n' ∧ d ≠ '\r' := by
  unfold escapeChar
  split
  · exact .inr ⟨'\\', rfl, rfl, by decide, by decide⟩
  · exact .inr ⟨'\'', rfl, rfl, by decide, by decide⟩
  · exact .inr ⟨'n', rfl, rfl, by decide, by decide⟩
  · exact .inr ⟨'r', rfl, rfl, by decide, by decide⟩
  · next hbackslash hquote hfeed hreturn => exact .inl ⟨rfl, hbackslash, hquote, hfeed, hreturn⟩

/-- Reading undoes the escape of a single character. -/
theorem lex_escapeChar (c : Char) (rest : List Char) :
    lex (.quoted inHole) (escapeChar c ++ rest) = (lex (.quoted inHole) rest).map (consQuoted c) := by
  rcases escapeChar_cases c with ⟨hplain, hbackslash, hquote, hfeed, hreturn⟩ | ⟨d, hescape, hd, _⟩
  · rw [hplain, List.singleton_append, lex_quoted, if_neg hquote, if_neg hbackslash,
      if_neg (by simp [hfeed, hreturn])]
  · rw [hescape, List.cons_append, List.singleton_append, lex_quoted, if_neg (by decide), if_pos rfl,
      lex_escapedQuoted, hd]

theorem lex_escaped (value rest : List Char) :
    lex (.quoted inHole) (value.flatMap escapeChar ++ '\'' :: rest) =
      (lex (.code inHole) rest).map (.quoted value :: ·) := by
  induction value with
  | nil => simp [lex_quoted]
  | cons c value ih =>
    rw [List.flatMap_cons, List.append_assoc, lex_escapeChar, ih, Option.map_map]
    rfl

theorem lex_literalChars (value : List Char) :
    Lexes inHole (literalChars value) [.quoted value] := by
  intro rest _
  have hq : continuesIdentifier '\'' = false := by decide
  simp only [literalChars, List.cons_append, List.append_assoc, List.nil_append]
  rw [lex_code, if_neg (by simp [hq]), if_neg (by decide), if_pos rfl, lex_escaped]

theorem lex_stringLiteral (value : String) :
    Lexes inHole (stringLiteral value).toList [.quoted value.toList] := by
  simpa [stringLiteral] using @lex_literalChars inHole value.toList

/-! ### Keys -/

/-- A name as one element: a word when it is an identifier, else quoted. -/
def nameToken (name : String) : Token :=
  if isIdentifier name then .word name.toList else .quoted name.toList

theorem lex_propertyKey (name : String) :
    Lexes inHole (propertyKey name).toList [nameToken name] := by
  unfold propertyKey nameToken
  split
  · next h => exact lex_identifier h
  · exact lex_stringLiteral name

end TypedClient.TypeScript
