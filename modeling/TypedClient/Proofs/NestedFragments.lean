import TypedClient.Proofs.Layout

/-! Fragments where they stand. Layers of blocks and sequences around some fragments, with what stands
beside them in each layer, add a front and a back to the text of the fragments and move it in by one
level for each block. What is inside does not change either of them, so a sequence around fragments
that follow each other makes no difference, and a line stands behind two spaces for each block
around it. -/

namespace TypedClient.Code

open Buffer

/-- A block or a sequence around fragments, with the fragments in front of it and behind it. -/
inductive Layer
  | block (before : List Fragment) (header : String) (close : Option String) (after : List Fragment)
  | sequence (before after : List Fragment)

namespace Layer

/-- The layer with fragments inside. -/
def around (inside : List Fragment) : Layer → List Fragment
  | block before header close after => before ++ .block header inside close :: after
  | sequence before after => before ++ .sequence inside :: after

/-- The levels by which a layer moves in what is inside. -/
def levels : Layer → Nat
  | block .. => 1
  | sequence .. => 0

def front (depth : Nat) : Layer → String
  | block before header _ _ => textsAt depth before ++ lineAt depth header
  | sequence before _ => textsAt depth before

def back (depth : Nat) : Layer → String
  | block _ _ close after => closingAt depth close ++ textsAt depth after
  | sequence _ after => textsAt depth after

theorem textsAt_around (depth : Nat) (inside : List Fragment) (layer : Layer) :
    textsAt depth (layer.around inside) =
      layer.front depth ++ textsAt (depth + layer.levels) inside ++ layer.back depth := by
  cases layer with
  | block before header close after =>
    rw [around, textsAt_append, textsAt, Fragment.textAt, front, back, levels]
    simp only [String.append_assoc]
  | sequence before after =>
    rw [around, textsAt_append, textsAt, Fragment.textAt, front, back, levels, Nat.add_zero,
      String.append_assoc]

end Layer

/-- A place among fragments, told by the layers around it, the outermost first. -/
abbrev Nesting := List Layer

namespace Nesting

/-- The layers with fragments at the place. -/
def fill (nesting : Nesting) (inside : List Fragment) : List Fragment :=
  nesting.foldr (fun layer inside => layer.around inside) inside

/-- The number of blocks around the place. -/
def blocks : Nesting → Nat
  | [] => 0
  | layer :: nesting => layer.levels + blocks nesting

/-- The text in front of the place. -/
def front : Nat → Nesting → String
  | _, [] => ""
  | depth, layer :: nesting => layer.front depth ++ front (depth + layer.levels) nesting

/-- The text behind the place. -/
def back : Nat → Nesting → String
  | _, [] => ""
  | depth, layer :: nesting => back (depth + layer.levels) nesting ++ layer.back depth

theorem textsAt_fill (depth : Nat) (nesting : Nesting) (inside : List Fragment) :
    textsAt depth (fill nesting inside) =
      front depth nesting ++ textsAt (depth + blocks nesting) inside ++ back depth nesting := by
  induction nesting generalizing depth with
  | nil => simp [fill, front, back, blocks]
  | cons layer nesting ih =>
    have hfill : fill (layer :: nesting) inside = layer.around (fill nesting inside) := rfl
    rw [hfill, layer.textsAt_around, ih, front, back, blocks, ← Nat.add_assoc]
    simp only [String.append_assoc]

end Nesting

theorem textsAt_append_sequence (depth : Nat) (before run after : List Fragment) :
    textsAt depth (before ++ .sequence run :: after) = textsAt depth (before ++ run ++ after) := by
  rw [textsAt_append, textsAt_sequence, ← textsAt_append, List.append_assoc]

/-- Spaces alone. -/
def spaces (count : Nat) : String := String.ofList (List.replicate count ' ')

theorem indentation_eq_spaces (depth : Nat) : indentation depth = spaces (2 * depth) := by
  rw [spaces, ← toList_indentation, String.ofList_toList]

/-- Fragments add a text to the buffer that depends on them and the depth alone, and keep the depth. A
sequence around some that follow each other changes nothing, at any place. What stands in front of a
place and behind it does not depend on the fragment there: at a place inside `n` blocks a line and a
comment follow exactly two spaces for each of these blocks and each level that the buffer had, and a
blank line is a line feed alone. -/
theorem fragments_compose :
    (∀ (b : Buffer) (fragments : List Fragment),
      b.emitAll fragments = ⟨b.text ++ textsAt b.depth fragments, b.depth⟩) ∧
    (∀ (b : Buffer) (nesting : Nesting) (before run after : List Fragment),
      b.emitAll (nesting.fill (before ++ .sequence run :: after)) =
        b.emitAll (nesting.fill (before ++ run ++ after))) ∧
    ∀ (b : Buffer) (nesting : Nesting) (before after : List Fragment),
      let front := b.text ++ nesting.front b.depth ++ textsAt (b.depth + nesting.blocks) before
      let back := textsAt (b.depth + nesting.blocks) after ++ nesting.back b.depth
      (∀ text, (b.emitAll (nesting.fill (before ++ .line text :: after))).text =
        front ++ (spaces (2 * (b.depth + nesting.blocks)) ++ text ++ "\n") ++ back) ∧
      (∀ text, (b.emitAll (nesting.fill (before ++ .comment text :: after))).text =
        front ++ (spaces (2 * (b.depth + nesting.blocks)) ++ commentLine text ++ "\n") ++ back) ∧
      (b.emitAll (nesting.fill (before ++ .blank :: after))).text = front ++ "\n" ++ back := by
  refine ⟨emitAll_eq, fun b nesting before run after => ?_, ?_⟩
  · rw [emitAll_eq, emitAll_eq, Nesting.textsAt_fill, Nesting.textsAt_fill, textsAt_append_sequence]
  · intro b nesting before after front back
    have hplace : ∀ fragment : Fragment,
        (b.emitAll (nesting.fill (before ++ fragment :: after))).text =
          front ++ fragment.textAt (b.depth + nesting.blocks) ++ back := by
      intro fragment
      rw [emitAll_eq, Nesting.textsAt_fill, textsAt_append, textsAt]
      simp only [front, back, String.append_assoc]
    have hline : ∀ text, lineAt (b.depth + nesting.blocks) text =
        spaces (2 * (b.depth + nesting.blocks)) ++ text ++ "\n" := fun text => by
      rw [lineAt, indentation_eq_spaces]
    exact ⟨fun text => hline text ▸ hplace (.line text),
      fun text => hline (commentLine text) ▸ hplace (.comment text), hplace .blank⟩

end TypedClient.Code
