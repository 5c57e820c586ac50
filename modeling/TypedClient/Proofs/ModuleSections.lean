import TypedClient.Proofs.Layout
import TypedClient.Proofs.TextLines

/-! A module as the texts of its sections, for every choice of sections and of fragments in the body,
and the text of an element of bare code, which is laid out line by line. -/

namespace TypedClient

namespace TypeScript

open Code

theorem textsAt_codeFragments (code : String) :
    textsAt 0 (codeFragments code) = String.join ((Text.lines code).map (· ++ "\n")) := by
  unfold codeFragments
  generalize Text.lines code = lines
  induction lines with
  | nil => rfl
  | cons line rest ih =>
    have hline : (if line.isEmpty then Fragment.blank else .line line).textAt 0 = line ++ "\n" := by
      split
      · next hempty =>
        rw [String.isEmpty_iff.mp hempty]
        rfl
      · simp [Fragment.textAt, lineAt, Buffer.indentation]
    rw [List.map_cons, textsAt, hline, ih, List.map_cons, String.join_cons]

/-- A module is the texts of its sections with one line feed between neighbours: the comments at the
top, if there are any, the imports, if there are any, and every element of the body, each at depth
zero. The text of an element of bare code is its lines, each ended by one line feed. -/
theorem module_sections :
    (∀ (header : List String) (imports : List Import) (body : List (List Fragment)),
      Module.renderParts header imports body = "\n".intercalate
        ((if header = [] then [] else [Code.render (Fragment.comments header)]) ++
          (if imports = [] then [] else [Code.render (imports.flatMap Import.fragments)]) ++
          body.map Code.render)) ∧
    (∀ code : String, Code.render (Element.code code).fragments =
      String.join ((Text.lines code).map (· ++ "\n"))) ∧
    ∀ (code : String) (lines : List String),
      Text.HasLines code.toList (lines.map String.toList) ↔ lines = Text.lines code := by
  refine ⟨fun header imports body => ?_, fun code => ?_, fun code lines => ?_⟩
  · rw [Module.renderParts_eq]
    simp only [List.isEmpty_iff]
  · rw [render_eq]
    exact textsAt_codeFragments code
  · rw [Text.hasLines_iff, Text.lines]
    constructor
    · intro h
      rw [← h, List.map_map]
      simp
    · rintro rfl
      simp

end TypeScript

end TypedClient
