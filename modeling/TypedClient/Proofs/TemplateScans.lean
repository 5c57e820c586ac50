import TypedClient.Proofs.TemplateDecomposition
import TypedClient.Route.OperationId
import TypedClient.TypeScript.PathLiteral

/-! The three scans of a path: for the names of its placeholders, for the words of an
identifier, and for the template literal. Each has its own loop, cuts its own slices
and stops on its own. All of them write behind what is already written, so a scan is
known by what it writes for a text with a hole behind it and for a path in which no
hole is left; and then it follows the one way to read the path. -/

namespace TypedClient

open Route TypeScript

namespace Route

/-! ### Positions of the braces -/

theorem idxOf?_append_cons {c : Char} {before : List Char} (h : c ∉ before) (after : List Char) :
    (before ++ c :: after).idxOf? c = some before.length := by
  induction before with
  | nil => simp [List.idxOf?_cons]
  | cons x before ih =>
    rw [List.mem_cons, not_or] at h
    simp [List.idxOf?_cons, Ne.symm h.1, ih h.2]

/-- A character that is found splits the list. -/
theorem eq_append_of_idxOf? {c : Char} {l : List Char} {i : Nat} (h : l.idxOf? c = some i) :
    l = l.take i ++ c :: l.drop (i + 1) := by
  obtain ⟨hi, hc, -⟩ := List.idxOf?_eq_some_iff.mp h
  rw [← hc, ← List.drop_eq_getElem_cons hi, List.take_append_drop]

theorem drop_append_cons (before : List Char) (c : Char) (after : List Char) :
    (before ++ c :: after).drop (before.length + 1) = after := by
  rw [List.drop_length_add_append, List.drop_succ_cons, List.drop_zero]

namespace Template

/-- No hole is left: no opening brace has a closing one behind it. -/
def Unclosed (rest : List Char) : Prop := ∀ before after, rest = before ++ '{' :: after → '}' ∉ after

variable {α : Type} {scan : List α → List Char → List α}
  (onHole : List Char → List Char → List α) (onRest : List Char → List α)

/-- A scan that appends `onHole` for a text with a hole behind it, and `onRest` where no hole is
left, does so along the way to read the path. -/
theorem Decomposes.scan_eq
    (hhole : ∀ out text name tail, '{' ∉ text → '}' ∉ name →
      scan out (text ++ '{' :: (name ++ '}' :: tail)) = scan (out ++ onHole text name) tail)
    (hrest : ∀ out rest, Unclosed rest → scan out rest = out ++ onRest rest)
    {t : Template} {path : List Char} (h : t.Decomposes path) (out : List α) :
    scan out path = out ++ t.steps.flatMap (fun (text, name) => onHole text name) ++ onRest t.rest := by
  obtain ⟨steps, rest⟩ := t
  induction steps generalizing path out with
  | nil =>
    obtain ⟨rfl, hopen⟩ := decomposes_nil.mp h
    simpa using hrest out rest hopen
  | cons step steps ih =>
    obtain ⟨text, name⟩ := step
    obtain ⟨ht, hn, tail, rfl, htail⟩ := decomposes_cons.mp h
    rw [hhole out text name tail ht hn, ih _ htail]
    simp

end Template

open Template

/-! ### A text with a hole behind it -/

section Hole

variable {text name : List Char} (tail : List Char)

theorem idxOf?_opening (ht : '{' ∉ text) :
    (text ++ '{' :: (name ++ '}' :: tail)).idxOf? '{' = some text.length :=
  idxOf?_append_cons ht _

/-- From the opening brace on, the hole closes one place behind its name. -/
theorem idxOf?_closing (hn : '}' ∉ name) :
    ((text ++ '{' :: (name ++ '}' :: tail)).drop text.length).idxOf? '}' = some (name.length + 1) := by
  rw [List.drop_left]
  have hname : '}' ∉ '{' :: name := by simpa using hn
  exact idxOf?_append_cons hname tail

variable (text name)

theorem drop_hole :
    (text ++ '{' :: (name ++ '}' :: tail)).drop (text.length + (name.length + 1) + 1) = tail := by
  rw [Nat.add_assoc, List.drop_length_add_append, List.drop_succ_cons, drop_append_cons]

theorem extract_name :
    (text ++ '{' :: (name ++ '}' :: tail)).extract (text.length + 1)
      (text.length + (name.length + 1)) = name := by
  have hcount : text.length + (name.length + 1) - (text.length + 1) = name.length := by omega
  rw [List.extract_eq_take_drop, hcount, drop_append_cons, List.take_left]

theorem extract_hole :
    (text ++ '{' :: (name ++ '}' :: tail)).extract text.length
      (text.length + (name.length + 1) + 1) = Template.hole name := by
  have hcount : text.length + (name.length + 1) + 1 - text.length = name.length + 1 + 1 := by omega
  rw [List.extract_eq_take_drop, hcount, List.drop_left, List.take_succ_cons,
    List.take_length_add_append]
  rfl

end Hole

/-! ### A path in which no hole is left -/

section Unclosed

variable {rest : List Char} {start : Nat} (h : Unclosed rest) (hopen : rest.idxOf? '{' = some start)

include h hopen

theorem idxOf?_behind_opening : (rest.drop (start + 1)).idxOf? '}' = none :=
  List.idxOf?_eq_none_iff.mpr (h _ _ (eq_append_of_idxOf? hopen))

theorem idxOf?_from_opening : (rest.drop start).idxOf? '}' = none := by
  obtain ⟨hstart, hbrace, -⟩ := List.idxOf?_eq_some_iff.mp hopen
  rw [List.drop_eq_getElem_cons hstart, hbrace, List.idxOf?_cons, idxOf?_behind_opening h hopen]
  rfl

end Unclosed

/-! ### The names -/

theorem scanPlaceholders_hole (names : List (List Char)) (text name tail : List Char)
    (ht : '{' ∉ text) (hn : '}' ∉ name) :
    scanPlaceholders names (text ++ '{' :: (name ++ '}' :: tail)) =
      scanPlaceholders (names ++ [name]) tail := by
  rw [scanPlaceholders, idxOf?_opening tail ht]
  dsimp only
  rw [drop_append_cons, idxOf?_append_cons hn]
  dsimp only
  rw [List.take_left, drop_append_cons]

theorem scanPlaceholders_rest (names : List (List Char)) (rest : List Char) (h : Unclosed rest) :
    scanPlaceholders names rest = names := by
  rw [scanPlaceholders]
  split
  · rfl
  · next start hopen =>
    dsimp only
    rw [idxOf?_behind_opening h hopen]

/-- The placeholders of a path are the names of its holes. -/
theorem placeholders_eq {path : String} {t : Template} (h : t.Decomposes path.toList) :
    placeholders path = t.names.map String.ofList := by
  have hscan := h.scan_eq (fun _ name => [name]) (fun _ => []) scanPlaceholders_hole
    (by simpa using scanPlaceholders_rest) []
  have hnames : t.names = t.steps.flatMap fun (_, name) => [name] := List.map_eq_flatMap
  rw [placeholders, hscan, hnames, List.append_nil, List.nil_append]

/-! ### The words -/

theorem replacePlaceholders_hole (out text name tail : List Char)
    (ht : '{' ∉ text) (hn : '}' ∉ name) :
    replacePlaceholders out (text ++ '{' :: (name ++ '}' :: tail)) =
      replacePlaceholders (out ++ (text ++ ['B', 'y'])) tail := by
  rw [replacePlaceholders, idxOf?_opening tail ht]
  dsimp only
  rw [idxOf?_closing tail hn]
  dsimp only
  rw [drop_hole, List.take_left, List.append_assoc]

theorem replacePlaceholders_rest (out rest : List Char) (h : Unclosed rest) :
    replacePlaceholders out rest = out ++ rest := by
  rw [replacePlaceholders]
  split
  · rfl
  · next start hopen => rw [idxOf?_from_opening h hopen]

/-- The words of a path are the letters and digits of its texts, with `By` for each hole. -/
theorem pathWords_eq {path : List Char} {t : Template} (h : t.Decomposes path) :
    pathWords path = (t.expand id fun _ => ['B', 'y']).filter Char.isAlphanum := by
  rw [pathWords, h.scan_eq _ _ replacePlaceholders_hole replacePlaceholders_rest []]
  rfl

end Route

/-! ### The literal -/

namespace TypeScript

/-- A hole in the literal: the access when it names a parameter, else the hole as written. -/
def writtenHole (params : List String) (name : List Char) : List Char :=
  if params.contains (String.ofList name) then templateHole name
  else templateText (Template.hole name)

theorem fillPlaceholders_hole (params : List String) (out text name tail : List Char)
    (ht : '{' ∉ text) (hn : '}' ∉ name) :
    fillPlaceholders params out (text ++ '{' :: (name ++ '}' :: tail)) =
      fillPlaceholders params (out ++ (templateText text ++ writtenHole params name)) tail := by
  rw [fillPlaceholders, idxOf?_opening tail ht]
  dsimp only
  rw [idxOf?_closing tail hn]
  dsimp only
  rw [drop_hole, extract_name, extract_hole, List.take_left, List.append_assoc]
  rfl

theorem fillPlaceholders_rest (params : List String) (out rest : List Char) (h : Template.Unclosed rest) :
    fillPlaceholders params out rest = out ++ templateText rest := by
  rw [fillPlaceholders]
  split
  · rfl
  · next start hopen => rw [idxOf?_from_opening h hopen]

/-- The literal of a path is its texts and its holes, written one after another. -/
theorem pathLiteral_eq (params : List String) {path : String} {t : Template}
    (h : t.Decomposes path.toList) :
    pathLiteral path params =
      String.ofList ('`' :: (t.expand templateText (writtenHole params) ++ ['`'])) := by
  rw [pathLiteral,
    h.scan_eq _ _ (fillPlaceholders_hole params) (fillPlaceholders_rest params) ['`']]
  simp [Template.expand]

end TypeScript

end TypedClient
