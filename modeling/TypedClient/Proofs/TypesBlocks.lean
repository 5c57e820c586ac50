import TypedClient.Proofs.Catalogs
import TypedClient.Proofs.CodeLines
import TypedClient.Proofs.OperationSources

/-! The types document as a sequence of blocks: the header, a block for each schema, the marker, and
the blocks of each operation. A block is a text of its own that begins with no line feed and ends
with one, so that the line feed between neighbours makes one empty line. More of them stand there only
where the block in front ends in several of its own, since a title or a reference at its end is
written as it is and may end in line feeds. What goes into the block of a schema or of an operation is
handed to it, and this is why other schemas and operations leave it alone, whether they are added,
taken away or moved. -/

namespace TypedClient

open Code Config TypeScript

/-! ### Blocks -/

/-- Texts behind others are appended, after a separator. -/
theorem intercalate_append (separator : String) {before : List String} (h : before ≠ [])
    (after : List String) : ∃ more,
      separator.intercalate (before ++ after) = separator.intercalate before ++ more := by
  cases after with
  | nil => exact ⟨"", by simp⟩
  | cons text rest =>
    rw [String.intercalate_append_of_ne_nil h (by simp), String.append_assoc]
    exact ⟨_, rfl⟩

/-- A text that begins with no line feed and ends with one, or with several when the last thing
written in it ends in line feeds. -/
structure IsBlock (text : String) : Prop where
  start : text.toList.head?.any (· != '\n') = true
  ending : ∃ front, text = front ++ "\n"

/-- The comments at the top of the types document. -/
def headerBlock (config : Config) (info : Document.Info) (now : String) : String :=
  Code.render (Fragment.comments (headerLines "Generated TypeScript types"
    (config.client.title.getD (Model.Meta.ofDocument info).title)
    (if config.generation.timestamp then some now else none)))

/-- The line in front of the blocks of the operations. -/
def markerBlock : String := "// Endpoint-specific types\n"

def declarationBlock (declaration : Declaration) : String := Code.render declaration.fragments

/-- The block of a schema, made of its name, the schema itself and how compositions are joined. -/
def schemaBlock (compose : Compose) (name : String) (schema : Document.Schema) : String :=
  declarationBlock (.ofEntry compose (.ofDocument name schema))

/-- The blocks of an operation: its request, if it has one, and its response. -/
def OperationSource.blocks (compose : Compose) (rule : QueryField) (s : OperationSource) :
    List String :=
  let signature := Signature.ofOperation
    { Generation.default with compose := compose, queryField := rule } s.toModel
  (EndpointTypes.mk signature.request signature.response).declarations.map declarationBlock

namespace Document

def schemaBlocks (d : Document) (compose : Compose) : List String :=
  d.components.schemas.map fun (name, schema) => schemaBlock compose name schema

/-- The blocks of each operation. -/
def operationBlocks (d : Document) (compose : Compose) (rule : QueryField) : List (List String) :=
  d.operationSources.map (OperationSource.blocks compose rule)

/-- All blocks of the types document, in order. -/
def typesBlocks (d : Document) (config : Config) (now : String) : List String :=
  headerBlock config d.info now :: (d.schemaBlocks config.generation.compose ++ [markerBlock] ++
    (d.operationBlocks config.generation.compose config.generation.queryField).flatten)

end Document

/-! ### The shape of a block -/

/-- A line begins with its text. -/
theorem head?_lineAt {text : String} {c : Char} (h : text.toList.head? = some c) (rest : String) :
    (lineAt 0 text ++ rest).toList.head? = some c := by
  simp [lineAt, Buffer.indentation, List.head?_append, h]

theorem isBlock_render {fragments : List Fragment} {c : Char} (hlined : areLined fragments = true)
    (hstart : (textsAt 0 fragments).toList.head? = some c) (hc : c ≠ '\n') :
    IsBlock (Code.render fragments) := by
  rw [Code.render_eq]
  refine ⟨by simpa [hstart] using hc, ?_⟩
  rcases lined_textsAt 0 fragments hlined with hempty | hending
  · rw [hempty] at hstart
    nomatch hstart
  · exact hending

/-- Fragments under comments begin with a slash, or as without comments when there are none. -/
theorem isBlock_commented {comments : List String} {fragments : List Fragment}
    (hlined : areLined fragments = true)
    (hstart : comments = [] → (textsAt 0 fragments).toList.head? = some 'e') :
    IsBlock (Code.render (Fragment.comments comments ++ fragments)) := by
  have hall : areLined (Fragment.comments comments ++ fragments) = true := by simp [hlined]
  cases comments with
  | nil => exact isBlock_render hall (hstart rfl) (by decide)
  | cons text rest =>
    obtain ⟨blank, _, htext⟩ := toList_commentLine text
    have hslash : (commentLine text).toList.head? = some '/' := by simp [htext]
    exact isBlock_render hall (head?_lineAt hslash _) (by decide)

theorem isBlock_declaration (declaration : Declaration) :
    IsBlock (declarationBlock declaration) := by
  match declaration with
  | .alias a =>
    have hline : ("export type " ++ a.name ++ " = " ++ a.type).toList.head? = some 'e' := by simp
    exact isBlock_commented rfl fun _ => head?_lineAt hline ""
  | .interface i =>
    have hclosed : ("export interface " ++ i.name ++ " {}").toList.head? = some 'e' := by simp
    have hopening : ("export interface " ++ i.name ++ r" {").toList.head? = some 'e' := by simp
    rw [declarationBlock, Declaration.fragments, Interface.fragments]
    split
    · exact isBlock_commented rfl fun _ => head?_lineAt hclosed ""
    · refine isBlock_commented (by simp [areLined, Fragment.isLined, areLined_fields]) fun _ => ?_
      rw [textsAt, Fragment.textAt, String.append_assoc, String.append_assoc]
      exact head?_lineAt hopening _

theorem isBlock_header (config : Config) (info : Document.Info) (now : String) :
    IsBlock (headerBlock config info now) := by
  have hblock : ∀ lines : List String, lines ≠ [] →
      IsBlock (Code.render (Fragment.comments lines)) := by
    intro lines hlines
    rw [← List.append_nil (Fragment.comments lines)]
    exact isBlock_commented rfl fun h => absurd h hlines
  exact hblock _ (List.cons_ne_nil _ _)

namespace Document

variable (d : Document) (config : Config) (now : String)

theorem isBlock_of_mem_typesBlocks {block : String} (h : block ∈ d.typesBlocks config now) :
    IsBlock block := by
  simp only [typesBlocks, List.mem_cons, List.mem_append, List.not_mem_nil, or_false] at h
  rcases h with rfl | (h | rfl) | h
  · exact isBlock_header config d.info now
  · obtain ⟨⟨name, schema⟩, _, rfl⟩ := List.mem_map.mp h
    exact isBlock_declaration _
  · exact ⟨by decide, "// Endpoint-specific types", rfl⟩
  · obtain ⟨blocks, hblocks, h⟩ := List.mem_flatten.mp h
    obtain ⟨s, _, rfl⟩ := List.mem_map.mp hblocks
    obtain ⟨declaration, _, rfl⟩ := List.mem_map.mp h
    exact isBlock_declaration declaration

/-- The sections of the types document are the blocks. -/
theorem render_sections : (d.generator config now).typesDocument.contents.sections.map Code.render =
    d.typesBlocks config now := by
  have hschemas : (d.generator config now).typesDocument.schemas.map declarationBlock =
      d.schemaBlocks config.generation.compose := by
    simp [Generator.typesDocument, generator, entries_catalog, schemaBlocks, schemaBlock,
      Function.comp_def]
  have hendpoints : (d.generator config now).typesDocument.endpointDeclarations.map declarationBlock =
      (d.operationBlocks config.generation.compose config.generation.queryField).flatten := by
    rw [TypesDocument.endpointDeclarations, Generator.typesDocument]
    simp only [signatures_generator, operationBlocks, ← List.flatMap_def, List.flatMap_map,
      List.map_flatMap]
    rfl
  rw [TypesDocument.sections_eq, typesBlocks, ← hschemas, ← hendpoints]
  simp only [List.map_cons, List.map_append, List.map_map, List.map_nil]
  rfl

/-! ### Other schemas and operations -/

variable {d}

/-- A document with the schemas and paths of two documents, in any order, has their blocks, in some
order. -/
theorem blocks_perm {e f : Document} (compose : Compose) (rule : QueryField)
    (he : e.components.parameters = d.components.parameters)
    (hf : f.components.parameters = d.components.parameters)
    (hschemas : f.components.schemas.Perm (d.components.schemas ++ e.components.schemas))
    (hpaths : f.paths.Perm (d.paths ++ e.paths)) :
    (f.schemaBlocks compose).Perm (d.schemaBlocks compose ++ e.schemaBlocks compose) ∧
      (f.operationBlocks compose rule).Perm
        (d.operationBlocks compose rule ++ e.operationBlocks compose rule) := by
  constructor
  · rw [schemaBlocks, schemaBlocks, schemaBlocks, ← List.map_append]
    exact hschemas.map _
  · rw [operationBlocks, operationBlocks, operationBlocks, operationSources_eq, operationSources_eq,
      operationSources_eq, effectiveParameters_congr he, effectiveParameters_congr hf,
      ← List.map_append, ← List.flatMap_append]
    exact (hpaths.flatMap_right _).map _

/-- `d` with one more operation at its end, or with a new path there. -/
inductive Appends (d : Document) : Document → Prop
  | path (path : String) (item : PathItem) : Appends d { d with paths := d.paths ++ [(path, item)] }
  | operation {before : List (String × PathItem)} {path : String} {item : PathItem}
      (h : d.paths = before ++ [(path, item)]) (method : Route.Method) (op : Operation) :
    Appends d { d with
      paths := before ++ [(path, { item with operations := item.operations ++ [(method, op)] })] }

theorem Appends.operationSources {e : Document} (h : d.Appends e) :
    ∃ more, e.operationSources = d.operationSources ++ more := by
  have hparameters : e.components.parameters = d.components.parameters := by cases h <;> rfl
  rw [operationSources_eq, operationSources_eq, effectiveParameters_congr hparameters]
  cases h with
  | path path item =>
    rw [List.flatMap_append]
    exact ⟨_, rfl⟩
  | @operation before path item h method op =>
    refine ⟨[⟨path, method, d.effectiveParameters item op, op⟩], ?_⟩
    have hitem : ∀ op, d.effectiveParameters
        { item with operations := item.operations ++ [(method, op)] } = d.effectiveParameters item :=
      fun _ => rfl
    simp [h, hitem]

theorem Appends.typesBlocks {e : Document} (h : d.Appends e) (config : Config) (now : String) :
    ∃ more, e.typesBlocks config now = d.typesBlocks config now ++ more := by
  obtain ⟨more, hsources⟩ := h.operationSources
  have hinfo : e.info = d.info := by cases h <;> rfl
  have hcomponents : e.components = d.components := by cases h <;> rfl
  rw [Document.typesBlocks, Document.typesBlocks, operationBlocks, operationBlocks, hsources, hinfo,
    schemaBlocks, hcomponents, List.map_append, List.flatten_append, ← List.append_assoc]
  exact ⟨_, rfl⟩

end Document

/-- The types document is a sequence of independent blocks. It is the header, a block for each
schema, the marker, and the blocks of each operation, in document order and with one line feed
between neighbours, which is an empty line behind a block that ends in one line feed. Under the same shared parameters, the schemas and paths of two documents put
together in any order have the blocks of both. An operation or a path at the end appends text. -/
theorem typesDocument_blocks (d : Document) (config : Config) (now : String) :
    (d.generator config now).typesDocument.render = "\n".intercalate (d.typesBlocks config now) ∧
      (∀ block ∈ d.typesBlocks config now, IsBlock block) ∧
      (∀ (e f : Document) (compose : Compose) (rule : QueryField),
        e.components.parameters = d.components.parameters →
        f.components.parameters = d.components.parameters →
        f.components.schemas.Perm (d.components.schemas ++ e.components.schemas) →
        f.paths.Perm (d.paths ++ e.paths) →
        (f.schemaBlocks compose).Perm (d.schemaBlocks compose ++ e.schemaBlocks compose) ∧
          (f.operationBlocks compose rule).Perm
            (d.operationBlocks compose rule ++ e.operationBlocks compose rule)) ∧
      ∀ e : Document, d.Appends e → ∃ more, (e.generator config now).typesDocument.render =
        (d.generator config now).typesDocument.render ++ more := by
  have hrender : ∀ d : Document, (d.generator config now).typesDocument.render =
      "\n".intercalate (d.typesBlocks config now) := by
    intro d
    rw [TypesDocument.render, Module.render_eq_intercalate, d.render_sections]
  -- The marker stands in front of all operations, so new ones change nothing above them.
  refine ⟨hrender d, fun block => d.isBlock_of_mem_typesBlocks config now,
    fun e f compose rule => Document.blocks_perm compose rule, fun e h => ?_⟩
  obtain ⟨more, hblocks⟩ := h.typesBlocks config now
  rw [hrender, hrender, hblocks]
  exact intercalate_append "\n" (by simp [Document.typesBlocks]) more

/-- A document of one path with operations of the given methods. -/
def methodsDocument (path : String) (methods : List Route.Method) : Document :=
  { Document.empty with
    paths := [(path, ⟨[], methods.map fun m => (m, ⟨none, none, none, [], none, []⟩), []⟩)] }

/-- The document of `/owners` and `/pets`, in this order. -/
def ownersFirst : Document :=
  { Document.empty with
    paths := (methodsDocument "/owners" [.get]).paths ++ (methodsDocument "/pets" [.get]).paths }

theorem methodsDocument_appends :
    (methodsDocument "/pets" [.get]).Appends (methodsDocument "/pets" [.get, .post]) :=
  @Document.Appends.operation (methodsDocument "/pets" [.get]) [] "/pets"
    ⟨[], [(.get, ⟨none, none, none, [], none, []⟩)], []⟩ rfl .post ⟨none, none, none, [], none, []⟩

theorem methodsDocument_blocks :
    (ownersFirst.operationBlocks .first .required).Perm
        ((methodsDocument "/pets" [.get]).operationBlocks .first .required ++
          (methodsDocument "/owners" [.get]).operationBlocks .first .required) ∧
      ∃ more, ((methodsDocument "/pets" [.get, .post]).generator .default "").typesDocument.render =
        ((methodsDocument "/pets" [.get]).generator .default "").typesDocument.render ++ more := by
  obtain ⟨_, _, hothers, happended⟩ := typesDocument_blocks (methodsDocument "/pets" [.get]) .default ""
  have hpaths : ownersFirst.paths.Perm
      ((methodsDocument "/pets" [.get]).paths ++ (methodsDocument "/owners" [.get]).paths) :=
    List.perm_append_comm
  have hblocks := hothers (methodsDocument "/owners" [.get]) ownersFirst .first .required rfl rfl
    (.refl _) hpaths
  exact ⟨hblocks.2, happended _ methodsDocument_appends⟩

end TypedClient
