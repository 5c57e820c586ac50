import TypedClient.TypeScript.Documents

/-! The text that fragments have at a depth. Appending fragments to a buffer adds a text that
depends on the fragments and the depth alone, and leaves the depth as it was. A module is its
sections, each a text of its own, with one line feed between neighbours. Those of the types document
are its header, the declarations of the schemas, the marker and the declarations of the
operations. -/

namespace TypedClient

namespace Code

open Buffer

theorem toList_indentation (depth : Nat) :
    (indentation depth).toList = List.replicate (2 * depth) ' ' := by
  unfold indentation
  induction depth with
  | zero => rfl
  | succ depth ih =>
    rw [List.replicate_succ, String.join_cons, String.toList_append, ih]
    rfl

/-- A line at a depth. -/
def lineAt (depth : Nat) (text : String) : String := indentation depth ++ text ++ "\n"

/-- The text of a comment as a line. -/
def commentLine (text : String) : String := if text.isEmpty then "//" else "// " ++ text

/-- The closing line of a block, if it has one. -/
def closingAt (depth : Nat) : Option String → String
  | none => ""
  | some text => lineAt depth text

mutual

/-- The text of a fragment at a depth. -/
def Fragment.textAt (depth : Nat) : Fragment → String
  | .line text => lineAt depth text
  | .blank => "\n"
  | .raw text => text
  | .block header body close =>
    lineAt depth header ++ textsAt (depth + 1) body ++ closingAt depth close
  | .sequence body => textsAt depth body
  | .comment text => lineAt depth (commentLine text)

/-- The text of fragments at a depth, one after the other. -/
def textsAt (depth : Nat) : List Fragment → String
  | [] => ""
  | fragment :: rest => fragment.textAt depth ++ textsAt depth rest

end

namespace Buffer

theorem line_eq (b : Buffer) (text : String) :
    b.line text = ⟨b.text ++ lineAt b.depth text, b.depth⟩ := by
  simp [line, raw, lineAt, String.append_assoc]

theorem closing_eq (b : Buffer) (close : Option String) :
    b.closing close = ⟨b.text ++ closingAt b.depth close, b.depth⟩ := by
  cases close with
  | none => simp [closing, closingAt]
  | some text => exact line_eq b text

mutual

/-- A fragment adds its text at the depth of the buffer. -/
theorem emit_eq (b : Buffer) (fragment : Fragment) :
    b.emit fragment = ⟨b.text ++ fragment.textAt b.depth, b.depth⟩ := by
  match fragment with
  | .line text => exact line_eq b text
  | .blank => rfl
  | .raw text => rfl
  | .block header body close =>
    rw [emit, line_eq, indent, emitAll_eq _ body, dedent, closing_eq, Fragment.textAt]
    simp [String.append_assoc]
  | .sequence body => exact emitAll_eq b body
  | .comment text => exact line_eq b (commentLine text)

/-- Fragments add their texts, one after the other. -/
theorem emitAll_eq (b : Buffer) (fragments : List Fragment) :
    b.emitAll fragments = ⟨b.text ++ textsAt b.depth fragments, b.depth⟩ := by
  match fragments with
  | [] => simp [emitAll, textsAt]
  | fragment :: rest =>
    rw [emitAll, emit_eq b fragment, emitAll_eq _ rest, textsAt, String.append_assoc]

end

end Buffer

theorem render_eq (fragments : List Fragment) : render fragments = textsAt 0 fragments := by
  rw [render, emitAll_eq]
  simp [empty]

theorem textsAt_append (depth : Nat) (before after : List Fragment) :
    textsAt depth (before ++ after) = textsAt depth before ++ textsAt depth after := by
  induction before with
  | nil => simp [textsAt]
  | cons fragment before ih => simp [textsAt, ih, String.append_assoc]

theorem textsAt_sequence (depth : Nat) (body rest : List Fragment) :
    textsAt depth (.sequence body :: rest) = textsAt depth (body ++ rest) := by
  rw [textsAt, Fragment.textAt, textsAt_append]

end Code

namespace TypeScript

open Code

namespace Module

/-- The sections below the comments at the top: the imports, if there are any, then the elements of
the body. -/
def sectionsBelow (m : Module) : List (List Fragment) :=
  (if m.imports.isEmpty then [] else [m.imports.flatMap Import.fragments]) ++
    m.body.map Element.fragments

/-- The sections of a module: the comments at the top, if there are any, and those below. -/
def sections (m : Module) : List (List Fragment) :=
  (if m.header.isEmpty then [] else [Fragment.comments m.header]) ++ m.sectionsBelow

/-- The state of rendering behind sections with the given texts. -/
def stateBehind (texts : List String) : Buffer × Bool :=
  (⟨"\n".intercalate texts, 0⟩, !texts.isEmpty)

theorem addSection_stateBehind (texts : List String) (fragments : List Fragment) :
    addSection (stateBehind texts) fragments = stateBehind (texts ++ [Code.render fragments]) := by
  unfold addSection stateBehind
  rw [render_eq]
  cases texts with
  | nil => simp [Buffer.emitAll_eq]
  | cons first rest =>
    rw [String.intercalate_append_of_ne_nil (by simp) (by simp)]
    simp [Buffer.emitAll_eq, Buffer.blank, Buffer.raw]

theorem addOptional_stateBehind (texts : List String) (fragments : List Fragment) :
    addOptional (stateBehind texts) fragments =
      stateBehind (texts ++ if fragments.isEmpty then [] else [Code.render fragments]) := by
  unfold addOptional
  split
  · simp
  · exact addSection_stateBehind texts fragments

theorem foldl_addSection (texts : List String) (body : List (List Fragment)) :
    body.foldl addSection (stateBehind texts) = stateBehind (texts ++ body.map Code.render) := by
  induction body generalizing texts with
  | nil => simp
  | cons fragments rest ih =>
    rw [List.foldl_cons, addSection_stateBehind, ih, List.append_assoc]
    rfl

theorem renderParts_eq (header : List String) (imports : List Import) (body : List (List Fragment)) :
    renderParts header imports body = "\n".intercalate
      ((if header.isEmpty then [] else [Code.render (Fragment.comments header)]) ++
        (if imports.isEmpty then [] else [Code.render (imports.flatMap Import.fragments)]) ++
        body.map Code.render) := by
  have hheader : (Fragment.comments header).isEmpty = header.isEmpty := by
    simp [Fragment.comments]
  have himports : (imports.flatMap Import.fragments).isEmpty = imports.isEmpty := by
    cases imports <;> simp [Import.fragments]
  have hstart : (Buffer.empty, false) = stateBehind [] := rfl
  unfold renderParts
  dsimp only
  rw [hstart, addOptional_stateBehind, addOptional_stateBehind, foldl_addSection, hheader, himports,
    List.nil_append]
  rfl

/-- A module is its sections, with one line feed between neighbours. -/
theorem render_eq_intercalate (m : Module) :
    m.render = "\n".intercalate (m.sections.map Code.render) := by
  rw [render, renderParts_eq, sections, sectionsBelow, List.map_append, List.map_append,
    List.append_assoc]
  cases m.header.isEmpty <;> cases m.imports.isEmpty <;> rfl

end Module

/-! ### The types document -/

/-- The declarations of the types of an operation. -/
def EndpointTypes.declarations (e : EndpointTypes) : List Declaration :=
  (e.request.map Declaration.interface).toList ++ [.alias e.response]

theorem EndpointTypes.elements_eq (e : EndpointTypes) :
    e.elements = e.declarations.map Element.type := by
  obtain ⟨request, response⟩ := e
  cases request <;> rfl

namespace TypesDocument

/-- The declarations behind the marker. -/
def endpointDeclarations (d : TypesDocument) : List Declaration :=
  d.endpoints.flatMap EndpointTypes.declarations

/-- The line between the two kinds of declarations. -/
def marker : Fragment := .line "// Endpoint-specific types"

theorem sectionsBelow_eq (d : TypesDocument) : d.contents.sectionsBelow =
    d.schemas.map Declaration.fragments ++ [[marker]] ++
      d.endpointDeclarations.map Declaration.fragments := by
  have helements : EndpointTypes.elements = fun e => e.declarations.map Element.type :=
    funext EndpointTypes.elements_eq
  have hfragments : Element.fragments ∘ Element.type = Declaration.fragments := rfl
  have hmarker : codeFragments "// Endpoint-specific types" = [marker] := rfl
  have hbelow : d.contents.sectionsBelow = d.contents.body.map Element.fragments := rfl
  rw [hbelow, contents, endpointDeclarations, helements]
  simp only [List.map_append, List.map_map, List.map_flatMap, hfragments, List.map_cons, List.map_nil,
    Element.fragments, hmarker]

theorem sections_eq (d : TypesDocument) : d.contents.sections =
    Fragment.comments d.contents.header :: (d.schemas.map Declaration.fragments ++ [[marker]] ++
      d.endpointDeclarations.map Declaration.fragments) := by
  rw [← sectionsBelow_eq]
  rfl

end TypesDocument

end TypeScript

end TypedClient
