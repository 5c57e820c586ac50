import TypedClient.Proofs.TemplateScans
import TypedClient.Proofs.Tokens

/-! The template literal of a path reads back as the path. Its holes are accesses to
members of `params`, one for each hole of the path that names a parameter, and every
other character of the path is text. -/

namespace TypedClient.TypeScript

open Route

/-- A part of a template literal: a character, or a member of `params`. -/
inductive Piece
  | text (c : Char)
  | member (name : List Char)
  deriving DecidableEq

/-- The parts of a template literal from its second element on. A hole holds a member of
`params`, after a dot or quoted in brackets. -/
def pieces : List Token → Option (List Piece)
  | [.backquote] => some []
  | .text c :: rest => (pieces rest).map (.text c :: ·)
  | .opening :: .word object :: .mark '.' :: .word name :: .closing :: rest =>
    if object = "params".toList ∧ isIdentifierChars name then (pieces rest).map (.member name :: ·)
    else none
  | .opening :: .word object :: .mark '[' :: .quoted name :: .mark ']' :: .closing :: rest =>
    if object = "params".toList then (pieces rest).map (.member name :: ·) else none
  | _ => none

/-- Reads code that is one template literal. -/
def readTemplate (code : String) : Option (List Piece) :=
  match tokens code with
  | some (.backquote :: rest) => pieces rest
  | _ => none

/-- A hole of a path when the given names are parameters. -/
def filledHole (params : List String) (name : List Char) : List Piece :=
  if params.contains (String.ofList name) then [.member name] else (Template.hole name).map .text

/-- A path with the holes that name a parameter filled in. -/
def filled (params : List String) (t : Template) : List Piece :=
  t.steps.flatMap (fun (text, name) => text.map .text ++ filledHole params name) ++
    t.rest.map .text

/-! ### The elements of the literal -/

/-- An access to a member. -/
def accessTokens (object name : List Char) : List Token :=
  if isIdentifierChars name then [.word object, .mark '.', .word name]
  else [.word object, .mark '[', .quoted name, .mark ']']

def Piece.tokens : Piece → List Token
  | .text c => [.text c]
  | .member name => .opening :: (accessTokens "params".toList name ++ [.closing])

theorem lex_propertyAccess {inHole : Bool} {object : String} (ho : isIdentifier object = true)
    (name : String) :
    Lexes inHole (propertyAccess object name).toList (accessTokens object.toList name.toList) := by
  have hobject : Lexes inHole object.toList [.word object.toList] := lex_identifier ho
  unfold propertyAccess accessTokens isIdentifier
  split
  · next hn =>
    have hname : Lexes inHole ('.' :: name.toList) [.mark '.', .word name.toList] :=
      .mark (by cases inHole <;> decide) (lex_identifier hn)
    have h := hobject.append hname rfl
    simpa using h
  · have hclose : Lexes inHole [']'] [.mark ']'] := .mark (by cases inHole <;> decide) .nil
    have hname : Lexes inHole ('[' :: ((stringLiteral name).toList ++ [']']))
        [.mark '[', .quoted name.toList, .mark ']'] :=
      .mark (by cases inHole <;> decide) ((lex_stringLiteral name).append hclose rfl)
    have h := hobject.append hname rfl
    simpa using h

/-- Reading undoes the escape of a single character. -/
theorem lex_escapeTemplateChar (c : Char) (rest : List Char) :
    lex .template (escapeTemplateChar c ++ rest) = (lex .template rest).map (.text c :: ·) := by
  unfold escapeTemplateChar
  split
  · simp [lex_template, lex_templateEscaped]
  · next h =>
    obtain ⟨⟨hq, hb⟩, hd⟩ : (c ≠ '`' ∧ c ≠ '\\') ∧ c ≠ '$' := by simpa [not_or] using h
    simp [lex_template, hq, hb, hd]

theorem lex_templateText (text rest : List Char) :
    lex .template (templateText text ++ rest) =
      (lex .template rest).map ((text.map Piece.text).flatMap Piece.tokens ++ ·) := by
  induction text with
  | nil => simp [templateText]
  | cons c text ih =>
    rw [templateText, List.flatMap_cons, List.append_assoc, lex_escapeTemplateChar]
    rw [← templateText, ih, map_append_map_cons]
    rfl

theorem lex_writtenHole (params : List String) (name rest : List Char) :
    lex .template (writtenHole params name ++ rest) =
      (lex .template rest).map ((filledHole params name).flatMap Piece.tokens ++ ·) := by
  unfold writtenHole filledHole
  split
  · have hparams : isIdentifier "params" = true := by decide
    have haccess := @lex_propertyAccess true "params" hparams (String.ofList name) ('}' :: rest) rfl
    have hw : continuesIdentifier '}' = false := by decide
    have hclose : lex (.code true) ('}' :: rest) = (lex .template rest).map (.closing :: ·) := by
      simp [lex_code, hw]
    have hopen : ∀ more, lex .template ('$' :: '{' :: more) =
        (lex (.code true) more).map (.opening :: ·) := fun more => by
      simp [lex_template, lex_opening]
    rw [templateHole, List.cons_append, List.cons_append, hopen, List.append_assoc,
      List.singleton_append, haccess, map_append_map_cons, hclose, Option.map_map]
    congr 1
    funext ts
    simp [Piece.tokens]
  · exact lex_templateText _ rest

theorem lex_expand (params : List String) (t : Template) (rest : List Char) :
    lex .template (t.expand templateText (writtenHole params) ++ rest) =
      (lex .template rest).map ((filled params t).flatMap Piece.tokens ++ ·) := by
  obtain ⟨steps, last⟩ := t
  induction steps with
  | nil => simp [filled, Template.expand_nil, lex_templateText]
  | cons step steps ih =>
    obtain ⟨text, name⟩ := step
    rw [Template.expand_cons, List.append_assoc, List.append_assoc, lex_templateText,
      lex_writtenHole, ih, map_append_map, map_append_map]
    simp [filled]

/-- The literal as elements of code. -/
def literalTokens (params : List String) (path : List Char) : List Token :=
  .backquote :: ((filled params (Template.ofChars path)).flatMap Piece.tokens ++ [.backquote])

theorem lex_pathLiteral (path : String) (params : List String) :
    Lexes false (pathLiteral path params).toList (literalTokens params path.toList) := by
  intro rest _
  have hw : continuesIdentifier '`' = false := by decide
  have hopen : ∀ more, lex (.code false) ('`' :: more) =
      (lex .template more).map (.backquote :: ·) := fun more => by simp [lex_code, hw]
  have hclose : lex .template ('`' :: rest) = (lex (.code false) rest).map (.backquote :: ·) := by
    simp [lex_template]
  rw [pathLiteral_eq params (Template.ofChars_decomposes path.toList), String.toList_ofList,
    List.cons_append, hopen, List.append_assoc, lex_expand, map_append_map_cons,
    List.singleton_append, hclose, Option.map_map]
  congr 1
  funext ts
  simp [literalTokens]

/-! ### The reading -/

theorem pieces_member (name : List Char) (rest : List Token) :
    pieces ((Piece.member name).tokens ++ rest) = (pieces rest).map (.member name :: ·) := by
  rw [Piece.tokens, accessTokens]
  split
  · next h => simp [pieces, h]
  · simp [pieces]

theorem pieces_tokens (parts : List Piece) :
    pieces (parts.flatMap Piece.tokens ++ [.backquote]) = some parts := by
  induction parts with
  | nil => rfl
  | cons part parts ih =>
    rw [List.flatMap_cons, List.append_assoc]
    cases part with
    | text c => simp [Piece.tokens, pieces, ih]
    | member name => rw [pieces_member, ih, Option.map_some]

/-- The literal of a path reads as the path with its holes filled in, where the holes are those of
the one way to read the path. -/
theorem readTemplate_pathLiteral (path : String) (params : List String) :
    ∃ t : Template, t.Decomposes path.toList ∧ (∀ u, u.Decomposes path.toList → u = t) ∧
      readTemplate (pathLiteral path params) = some (filled params t) := by
  refine ⟨Template.ofChars path.toList, Template.ofChars_decomposes _,
    fun u hu => Template.decomposes_iff.mp hu, ?_⟩
  rw [readTemplate, (lex_pathLiteral path params).tokens_eq, literalTokens]
  exact pieces_tokens _

end TypedClient.TypeScript
