import TypedClient.Proofs.Documentation
import TypedClient.Proofs.OperationSources

/-! Titles, summaries and descriptions of operations, and the code of the documents. They stand in
comments alone, the title at the top and a label over each function, so two runs that differ in them
differ only in what overruns these comments. That is nothing when the texts are single lines; but a
title or a summary is not cut into lines, and what stands behind a line feed in it is code. -/

namespace TypedClient

open Code TypeScript

namespace TypeScript

theorem overrun_append {front : String} (h : '\n' ∉ front.toList) (text : String) :
    overrun (front ++ text) = overrun text := by
  rw [overrun, String.toList_append, splitOn_append h, List.tail_cons, overrun]

/-- The title overruns the comments at the top, and the time if there is one. -/
theorem overrun_headerLines {purpose : String} (h : '\n' ∉ purpose.toList) (title : String)
    (time : Option String) : (headerLines purpose title time).flatMap overrun =
      overrun title ++ time.toList.flatMap overrun := by
  have htitle : overrun (purpose ++ " for " ++ title) = overrun title :=
    overrun_append (by simp [h]) title
  cases time with
  | none => simp [headerLines, htitle]
  | some time => simp [headerLines, htitle, overrun_append]

/-! ### The client document -/

def Function.uncommented (f : Function) : Function := { f with comments := [] }

/-- The code of a function in the factory, and the empty line below it. -/
def Function.code (f : Function) : List (List Char) :=
  codeOf (textsAt 1 [.block f.header f.body (some r"}"), .blank])

theorem codeOf_functions {functions : List Function}
    (h : ∀ f ∈ functions, areLined f.body = true) :
    codeOf (textsAt 1 (functions.flatMap fun f => [.sequence f.fragments, .blank])) =
      functions.flatMap fun f => f.comments.flatMap overrun ++ f.code := by
  induction functions with
  | nil => rfl
  | cons f rest ih =>
    obtain ⟨hf, hrest⟩ := List.forall_mem_cons.mp h
    have hlined : areLined [Fragment.sequence f.fragments, .blank] = true := by
      simp [areLined, Fragment.isLined, areLined_function, hf]
    have hcomments : codeOf (textsAt 1 [.sequence f.fragments, .blank]) =
        f.comments.flatMap overrun ++ f.code := by
      rw [textsAt_sequence, Function.fragments, List.append_assoc,
        codeOf_textsAt_append 1 _ (areLined_comments f.comments), codeOf_comments]
      rfl
    rw [List.flatMap_cons, List.flatMap_cons, codeOf_textsAt_append 1 _ hlined, hcomments, ih hrest]

/-! ### The types document -/

namespace TypesDocument

def untitled (d : TypesDocument) : TypesDocument := { d with title := "" }

/-- The code of the types document, without what overruns the title. -/
def codeBelowTitle (d : TypesDocument) : List (List Char) :=
  d.generatedAt.toList.flatMap overrun ++ (declarationsCode d.schemas ++ [[]] ++
    declarationsCode d.endpointDeclarations ++ [[]])

theorem codeLines_eq (d : TypesDocument) :
    codeLines d.render = overrun d.title ++ d.untitled.codeBelowTitle := by
  have hheader : d.contents.header.flatMap overrun =
      overrun d.title ++ d.generatedAt.toList.flatMap overrun :=
    overrun_headerLines (by decide) d.title d.generatedAt
  rw [codeLines_render, hheader, List.append_assoc]
  rfl

/-- Of types documents that differ in the title alone the code is the same exactly when the same
lines overrun it. -/
theorem codeLines_eq_iff {d e : TypesDocument} (h : d.untitled = e.untitled) :
    codeLines d.render = codeLines e.render ↔ overrun d.title = overrun e.title := by
  rw [codeLines_eq, codeLines_eq, h]
  exact List.append_left_inj _

end TypesDocument

namespace ClientDocument

/-- The document without its title and without the comments on its functions. -/
def uncommented (d : ClientDocument) : ClientDocument :=
  { d with title := "", functions := d.functions.map Function.uncommented }

/-- What overruns the title, and the comments on each function. -/
def overruns (d : ClientDocument) : List (List (List Char)) :=
  overrun d.title :: d.functions.map fun f => f.comments.flatMap overrun

/-- The sections between the header and the factory. -/
def sectionsAbove (d : ClientDocument) : List (List Fragment) :=
  [d.contents.imports.flatMap Import.fragments, (Declaration.interface settings).fragments,
    Constant.fragments ⟨"DEFAULT_API_BASE_URL", stringLiteral d.baseUrl, true⟩]

/-- The lines of the factory in front of the functions. -/
def opening : List Fragment :=
  [.sequence (Constant.fragments ⟨"baseURL", "config.apiBaseUrl ?? DEFAULT_API_BASE_URL", false⟩),
    .blank]

/-- The code in front of the functions, without what overruns the title. -/
def codeAbove (d : ClientDocument) : List (List Char) :=
  d.generatedAt.toList.flatMap overrun ++
    (d.sectionsAbove.flatMap fun fragments => [] :: codeOf (Code.render fragments)) ++
    [] :: codeOf (lineAt 0 (factory d.functions).header) ++ codeOf (textsAt 1 opening)

/-- The code behind the functions. -/
def codeBelow (d : ClientDocument) : List (List Char) :=
  codeOf (textsAt 1 [results d.functions]) ++ codeOf (lineAt 0 r"}") ++ [[]]

theorem areLined_opening : areLined opening = true := rfl

theorem areLined_functions {functions : List Function}
    (h : ∀ f ∈ functions, areLined f.body = true) :
    areLined (functions.flatMap fun f => [.sequence f.fragments, .blank]) = true := by
  rw [areLined_eq, List.all_flatMap, List.all_eq_true]
  intro f hf
  simp [Fragment.isLined, areLined_function, h f hf]

theorem areLined_results (functions : List Function) : areLined [results functions] = true := by
  unfold results
  split
  · rfl
  · simp [areLined, Fragment.isLined, areLined_entryFragments]

section Factory

variable {functions : List Function} (h : ∀ f ∈ functions, areLined f.body = true)

theorem body_factory : (factory functions).body =
    opening ++ (functions.flatMap fun f => [.sequence f.fragments, .blank]) ++
      [results functions] := rfl

include h

theorem areLined_front :
    areLined (opening ++ functions.flatMap fun f => [.sequence f.fragments, .blank]) = true := by
  rw [areLined_append, areLined_opening, areLined_functions h]
  rfl

theorem areLined_factory : areLined (factory functions).body = true := by
  rw [body_factory, areLined_append, areLined_front h, areLined_results]
  rfl

theorem codeOf_factory : codeOf (Code.render (factory functions).fragments) =
    codeOf (lineAt 0 (factory functions).header) ++ codeOf (textsAt 1 opening) ++
      (functions.flatMap fun f => f.comments.flatMap overrun ++ f.code) ++
      codeOf (textsAt 1 [results functions]) ++ codeOf (lineAt 0 r"}") := by
  have hfragments : (factory functions).fragments =
      [.block (factory functions).header (factory functions).body (some r"}")] := rfl
  rw [Code.render_eq, hfragments, codeOf_block 0 _ _ (areLined_factory h), body_factory,
    codeOf_textsAt_append 1 _ (areLined_front h), codeOf_textsAt_append 1 _ areLined_opening,
    codeOf_functions h]
  simp only [List.append_assoc]
  rfl

end Factory

theorem areLined_sections {d : ClientDocument} (h : ∀ f ∈ d.functions, areLined f.body = true) :
    ∀ fragments ∈ d.sectionsAbove ++ [(factory d.functions).fragments],
      areLined fragments = true := by
  intro fragments hmem
  simp only [sectionsAbove, List.cons_append, List.nil_append, List.mem_cons, List.not_mem_nil,
    or_false] at hmem
  rcases hmem with rfl | rfl | rfl | rfl
  · rfl
  · exact areLined_declaration _
  · exact areLined_constant _
  · rw [areLined_function]
    exact areLined_factory h

/-- The code of the client, with what overruns the title and the comments on the functions. -/
theorem codeLines_render {d : ClientDocument} (h : ∀ f ∈ d.functions, areLined f.body = true) :
    codeLines d.render = overrun d.title ++ d.codeAbove ++
      (d.functions.flatMap fun f => f.comments.flatMap overrun ++ f.code) ++ d.codeBelow := by
  have hbelow : d.contents.sectionsBelow =
      d.sectionsAbove ++ [(factory d.functions).fragments] := rfl
  have hlined : ∀ fragments ∈ d.contents.sectionsBelow, areLined fragments = true := by
    rw [hbelow]
    exact areLined_sections h
  have hheader : d.contents.header.flatMap overrun =
      overrun d.title ++ d.generatedAt.toList.flatMap overrun :=
    overrun_headerLines (by decide) d.title d.generatedAt
  rw [render, Module.codeLines_render (by simp [contents, headerLines]) hlined, hheader, hbelow,
    List.flatMap_append, List.flatMap_singleton, codeOf_factory h, codeAbove, codeBelow]
  simp only [List.append_assoc, List.cons_append]

theorem codeAbove_uncommented (d : ClientDocument) : d.uncommented.codeAbove = d.codeAbove := rfl

theorem codeBelow_uncommented (d : ClientDocument) : d.uncommented.codeBelow = d.codeBelow := by
  have hresults : results d.uncommented.functions = results d.functions := by
    simp [results, uncommented, Function.comp_def, Function.uncommented]
  rw [codeBelow, hresults, codeBelow]

/-- The overruns and the code of the functions in turns. -/
theorem flatMap_functions (d : ClientDocument) :
    (d.functions.flatMap fun f => f.comments.flatMap overrun ++ f.code) =
      (d.overruns.tail.zip d.uncommented.functions).flatMap fun (lines, f) => lines ++ f.code := by
  rw [overruns, uncommented, List.tail_cons, List.zip_map', List.flatMap_map]
  rfl

variable {d e : ClientDocument}

/-- Documents that differ in comments on functions and the title alone have the same code when the
same lines overrun these. -/
theorem codeLines_congr (hd : ∀ f ∈ d.functions, areLined f.body = true)
    (he : ∀ f ∈ e.functions, areLined f.body = true) (h : d.uncommented = e.uncommented)
    (hoverruns : d.overruns = e.overruns) : codeLines d.render = codeLines e.render := by
  have htitle : overrun d.title = overrun e.title := (List.cons.inj hoverruns).1
  rw [codeLines_render hd, codeLines_render he, flatMap_functions, flatMap_functions, htitle,
    hoverruns, ← codeAbove_uncommented d, ← codeBelow_uncommented d, h, codeAbove_uncommented,
    codeBelow_uncommented]

theorem length_overruns (h : d.uncommented = e.uncommented) :
    d.overruns.length = e.overruns.length := by
  have hfunctions := congrArg (fun d => d.functions.length) h
  simpa [overruns, uncommented] using hfunctions

/-- The lines that overrun comments are lines of code beside the others. -/
theorem length_codeLines (hd : ∀ f ∈ d.functions, areLined f.body = true) :
    (codeLines d.render).length = d.overruns.flatten.length + (d.uncommented.codeAbove.length +
      (d.uncommented.functions.flatMap Function.code).length + d.uncommented.codeBelow.length) := by
  have hturns : ∀ functions : List Function,
      (functions.flatMap fun f => f.comments.flatMap overrun ++ f.code).length =
        (functions.map fun f => f.comments.flatMap overrun).flatten.length +
          (functions.flatMap Function.code).length := by
    intro functions
    induction functions with
    | nil => rfl
    | cons f rest ih =>
      simp only [List.flatMap_cons, List.map_cons, List.flatten_cons, List.length_append] at ih ⊢
      omega
  have hcode : d.uncommented.functions.flatMap Function.code =
      d.functions.flatMap Function.code := by
    rw [uncommented, List.flatMap_map]
    rfl
  rw [codeLines_render hd, hcode, codeAbove_uncommented, codeBelow_uncommented, overruns]
  simp only [List.length_append, hturns, List.flatten_cons]
  omega

/-- If nothing overruns the comments of the second document, then the first has no other code exactly
when nothing overruns its own. -/
theorem overruns_eq_nil (hd : ∀ f ∈ d.functions, areLined f.body = true)
    (he : ∀ f ∈ e.functions, areLined f.body = true) (h : d.uncommented = e.uncommented)
    (hnone : ∀ lines ∈ e.overruns, lines = []) (hcode : codeLines d.render = codeLines e.render) :
    ∀ lines ∈ d.overruns, lines = [] := by
  -- Code that a comment leaves behind may well look like code beside it, so the lines cannot be
  -- told apart. But they can be counted.
  have hlength := congrArg List.length hcode
  have hflatten : e.overruns.flatten = [] := List.flatten_eq_nil_iff.mpr hnone
  rw [length_codeLines hd, length_codeLines he, h, hflatten, List.length_nil] at hlength
  refine List.flatten_eq_nil_iff.mp (List.eq_nil_of_length_eq_zero ?_)
  omega

end ClientDocument

/-! ### Signatures -/

namespace Signature

def unlabelled (s : Signature) : Signature := { s with label := "" }

theorem areLined_function (s : Signature) : areLined s.function.body = true := by
  simp [function, call, areLined, Fragment.isLined, areLined_entryFragments]

theorem function_unlabelled (s : Signature) :
    s.unlabelled.function.uncommented = s.function.uncommented := rfl

theorem types_unlabelled (s : Signature) :
    EndpointTypes.mk s.unlabelled.request s.unlabelled.response = ⟨s.request, s.response⟩ := rfl

end Signature

end TypeScript

/-! ### Documents without descriptive text -/

namespace Document

/-- The operation without its summary and its description. -/
def Operation.undescribed (op : Operation) : Operation :=
  { op with summary := none, description := none }

def PathItem.undescribed (item : PathItem) : PathItem :=
  { item with operations := item.operations.map fun (method, op) => (method, op.undescribed) }

/-- The document without its title and the summaries and descriptions of its operations. -/
def undescribed (d : Document) : Document :=
  { d with
    info := { d.info with title := none }
    paths := d.paths.map fun (path, item) => (path, item.undescribed) }

end Document

/-- The settings without a title. -/
def Config.untitled (config : Config) : Config :=
  { config with client := { config.client with title := none } }

/-- The operation as generation takes it, without its summary and description. -/
def OperationSource.undescribed (s : OperationSource) : OperationSource :=
  { s with operation := s.operation.undescribed }

theorem Document.operationSources_undescribed (d : Document) :
    d.undescribed.operationSources = d.operationSources.map OperationSource.undescribed := by
  have hpaths : d.undescribed.paths = d.paths.map fun (path, item) => (path, item.undescribed) := rfl
  rw [operationSources_eq, operationSources_eq, hpaths, List.flatMap_map, List.map_flatMap]
  congr 1
  funext ⟨path, item⟩
  simp only [PathItem.undescribed, List.map_map]
  rfl

/-- A signature without its label does not depend on descriptive text. -/
theorem OperationSource.unlabelled_undescribed (settings : Config.Generation) (s : OperationSource) :
    (Signature.ofOperation settings s.undescribed.toModel).unlabelled =
      (Signature.ofOperation settings s.toModel).unlabelled := by
  have hid : s.undescribed.toModel.id = s.toModel.id := rfl
  have hpath : s.undescribed.toModel.pathParameters = s.toModel.pathParameters := rfl
  have hquery : s.undescribed.toModel.queryParameters = s.toModel.queryParameters := rfl
  have hinput : s.undescribed.toModel.takesInput = s.toModel.takesInput := rfl
  have hbody : s.undescribed.toModel.requestBody = s.toModel.requestBody := rfl
  have hresponse : s.undescribed.toModel.response = s.toModel.response := rfl
  simp only [Signature.ofOperation, Signature.unlabelled, hid, hpath, hquery, hinput, hbody, hresponse]
  rfl

/-! ### Labels -/

namespace Model.Operation

open Text

theorem lineFeed_notMem_joinedDescription (op : Operation) :
    '\n' ∉ op.joinedDescription.toList := by
  have hspace : '\n' ∉ " ".toList := by decide
  have hnotes : ∀ note ∈ noteLines op.description, '\n' ∉ note.toList :=
    fun note => lineFeed_notMem_noteLines
  intro h
  refine lineFeed_notMem_intercalate hspace hnotes ?_
  exact trimChars_subset _ (by simpa [joinedDescription, trim] using h)

/-- A label overruns its comment where the summary does, or the path that stands in for one. A
description does not. -/
theorem overrun_label (op : Operation) : overrun op.label =
    if (trim (op.summary.getD "")).isEmpty then
      if op.joinedDescription.isEmpty then overrun op.path else []
    else overrun (trim (op.summary.getD "")) := by
  have hmethod : '\n' ∉ (op.method.upper ++ " ").toList := by cases op.method <;> decide
  have hdescription := overrun_eq_nil (lineFeed_notMem_joinedDescription op)
  have hpath := overrun_append hmethod op.path
  unfold label
  dsimp only
  cases (trim (op.summary.getD "")).isEmpty <;> cases op.joinedDescription.isEmpty <;>
    simp [hdescription, hpath]

end Model.Operation

/-! ### One run -/

namespace Generator

/-- What overruns the title, and the label of each operation. -/
def overruns (g : Generator) : List (List (List Char)) :=
  overrun g.title :: g.api.operations.map fun op => overrun op.label

theorem overruns_clientDocument (g : Generator) : g.clientDocument.overruns = g.overruns := by
  have hcomments : ∀ settings op, (Signature.ofOperation settings op).function.comments.flatMap
      overrun = overrun op.label := by
    intro settings op
    have hlabel : (Signature.ofOperation settings op).function.comments = [op.label] := by
      simp only [Signature.function, Signature.ofOperation]
    rw [hlabel, List.flatMap_singleton]
  simp only [ClientDocument.overruns, clientDocument, signatures, overruns, List.map_map,
    Function.comp_def, hcomments]

theorem areLined_functions (g : Generator) : ∀ f ∈ g.clientDocument.functions,
    areLined f.body = true := by
  intro f hf
  obtain ⟨s, _, rfl⟩ := List.mem_map.mp hf
  exact s.areLined_function

theorem uncommented_functions (g : Generator) :
    g.clientDocument.functions.map Function.uncommented =
      (g.signatures.map Signature.unlabelled).map fun s => s.function.uncommented := by
  rw [clientDocument, List.map_map, List.map_map]
  exact List.map_congr_left fun s _ => s.function_unlabelled.symm

theorem endpoints_unlabelled (g : Generator) : g.typesDocument.endpoints =
    (g.signatures.map Signature.unlabelled).map fun s => ⟨s.request, s.response⟩ := by
  rw [typesDocument, List.map_map]
  exact List.map_congr_left fun s _ => s.types_unlabelled.symm

end Generator

section Run

variable (d : Document) (config : Config) (now : String)

/-- The signatures of a run without labels do not depend on descriptive text. -/
theorem signatures_undescribed : (d.generator config now).signatures.map Signature.unlabelled =
    (d.undescribed.generator config.untitled now).signatures.map Signature.unlabelled := by
  rw [Document.signatures_generator, Document.signatures_generator,
    Document.operationSources_undescribed, List.map_map, List.map_map, List.map_map]
  exact List.map_congr_left fun s _ => (s.unlabelled_undescribed config.generation).symm

theorem clientDocument_undescribed : (d.generator config now).clientDocument.uncommented =
    (d.undescribed.generator config.untitled now).clientDocument.uncommented := by
  rw [ClientDocument.uncommented, ClientDocument.uncommented, Generator.uncommented_functions,
    Generator.uncommented_functions, signatures_undescribed]
  rfl

theorem typesDocument_undescribed : (d.generator config now).typesDocument.untitled =
    (d.undescribed.generator config.untitled now).typesDocument.untitled := by
  rw [TypesDocument.untitled, TypesDocument.untitled, Generator.endpoints_unlabelled,
    Generator.endpoints_unlabelled, signatures_undescribed]
  rfl

end Run

/-! ### Two runs -/

section TwoRuns

variable {d d' : Document} {config config' : Config} (hd : d.undescribed = d'.undescribed)
  (hconfig : config.untitled = config'.untitled) (now : String)

include hd hconfig

theorem uncommented_eq : (d.generator config now).clientDocument.uncommented =
    (d'.generator config' now).clientDocument.uncommented := by
  refine (clientDocument_undescribed d config now).trans ?_
  rw [hd, hconfig]
  exact (clientDocument_undescribed d' config' now).symm

theorem codeLines_types_iff : codeLines (d.generator config now).typesDocument.render =
      codeLines (d'.generator config' now).typesDocument.render ↔
    overrun (d.generator config now).title = overrun (d'.generator config' now).title := by
  refine TypesDocument.codeLines_eq_iff ((typesDocument_undescribed d config now).trans ?_)
  rw [hd, hconfig]
  exact (typesDocument_undescribed d' config' now).symm

theorem codeLines_client_of_overruns
    (h : (d.generator config now).overruns = (d'.generator config' now).overruns) :
    codeLines (d.generator config now).clientDocument.render =
      codeLines (d'.generator config' now).clientDocument.render := by
  refine ClientDocument.codeLines_congr (Generator.areLined_functions _)
    (Generator.areLined_functions _) (uncommented_eq hd hconfig now) ?_
  rw [Generator.overruns_clientDocument, Generator.overruns_clientDocument, h]

theorem overruns_of_codeLines_client
    (hnone : ∀ lines ∈ (d'.generator config' now).overruns, lines = [])
    (hcode : codeLines (d.generator config now).clientDocument.render =
      codeLines (d'.generator config' now).clientDocument.render) :
    ∀ lines ∈ (d.generator config now).overruns, lines = [] := by
  rw [← Generator.overruns_clientDocument] at hnone ⊢
  exact ClientDocument.overruns_eq_nil (Generator.areLined_functions _)
    (Generator.areLined_functions _) (uncommented_eq hd hconfig now) hnone hcode

/-- There are as many labels in both runs. -/
theorem overruns_eq_of_nil
    (h : ∀ lines ∈ (d.generator config now).overruns, lines = [])
    (h' : ∀ lines ∈ (d'.generator config' now).overruns, lines = []) :
    (d.generator config now).overruns = (d'.generator config' now).overruns := by
  have hlength : (d.generator config now).overruns.length =
      (d'.generator config' now).overruns.length := by
    rw [← Generator.overruns_clientDocument, ← Generator.overruns_clientDocument]
    exact ClientDocument.length_overruns (uncommented_eq hd hconfig now)
  rw [List.eq_replicate_of_mem h, List.eq_replicate_of_mem h', hlength]

end TwoRuns

/-- Descriptive text becomes code only where it overruns a comment. Let two runs differ in titles,
summaries and descriptions of operations alone. Their types documents have the same code exactly
when the same lines overrun the titles, and their client documents do when the same lines overrun
titles and labels. If nothing overruns those of the second run, both documents have the same code
exactly when nothing overruns those of the first. A label is overrun where the summary overruns its
own first line, or the path that stands in for a text. -/
theorem codeLines_descriptiveText (d d' : Document) (config config' : Config) (now : String)
    (hd : d.undescribed = d'.undescribed) (hconfig : config.untitled = config'.untitled) :
    let g := d.generator config now
    let g' := d'.generator config' now
    (codeLines g.typesDocument.render = codeLines g'.typesDocument.render ↔
      overrun g.title = overrun g'.title) ∧
    (g.overruns = g'.overruns →
      codeLines g.clientDocument.render = codeLines g'.clientDocument.render) ∧
    ((∀ lines ∈ g'.overruns, lines = []) →
      (codeLines g.typesDocument.render = codeLines g'.typesDocument.render ∧
        codeLines g.clientDocument.render = codeLines g'.clientDocument.render ↔
          ∀ lines ∈ g.overruns, lines = [])) ∧
    ∀ op ∈ g.api.operations, overrun op.label =
      if (Text.trim (op.summary.getD "")).isEmpty then
        if op.joinedDescription.isEmpty then overrun op.path else []
      else overrun (Text.trim (op.summary.getD "")) := by
  intro g g'
  have htypes := codeLines_types_iff hd hconfig now
  have hclient := codeLines_client_of_overruns hd hconfig now
  refine ⟨htypes, hclient, fun hnone => ⟨?_, fun hown => ?_⟩, fun op _ => op.overrun_label⟩
  · exact fun hsame => overruns_of_codeLines_client hd hconfig now hnone hsame.2
  · have hoverruns := overruns_eq_of_nil hd hconfig now hown hnone
    exact ⟨htypes.mpr (List.cons.inj hoverruns).1, hclient hoverruns⟩

/-- A document of one operation, with a title and a summary. -/
def summaryDocument (title summary : String) : Document :=
  { Document.empty with
    info := ⟨some title, none, none⟩
    paths := [("/pets", ⟨[], [(.get, ⟨none, some summary, none, [], none, []⟩)], []⟩)] }

/-- Titles and summaries of one line each leave the code alone, and so does a title in the
settings. -/
theorem summaryDocument_codeLines :
    (summaryDocument "Pets" "List pets").undescribed =
        (summaryDocument "Zoo" "Show all animals").undescribed ∧
      Config.default.untitled = { Config.default with client.title := some "My API" }.untitled ∧
      codeLines ((summaryDocument "Pets" "List pets").generator .default "").typesDocument.render =
        codeLines ((summaryDocument "Zoo" "Show all animals").generator
          { Config.default with client.title := some "My API" } "").typesDocument.render ∧
      codeLines ((summaryDocument "Pets" "List pets").generator .default "").clientDocument.render =
        codeLines ((summaryDocument "Zoo" "Show all animals").generator
          { Config.default with client.title := some "My API" } "").clientDocument.render := by
  have h := codeLines_descriptiveText (summaryDocument "Pets" "List pets")
    (summaryDocument "Zoo" "Show all animals") .default
    { Config.default with client.title := some "My API" } "" rfl rfl
  exact ⟨rfl, rfl, (h.2.2.1 (by decide +kernel)).mpr (by decide +kernel)⟩

/-- A line feed in a title makes code of what follows it, and so does one in a summary. -/
theorem lineFeed_overruns :
    ((summaryDocument "Pets\nfor sale" "List pets").undescribed =
        (summaryDocument "Pets" "List pets").undescribed ∧
      codeLines ((summaryDocument "Pets\nfor sale" "List pets").generator .default
          "").typesDocument.render ≠
        codeLines ((summaryDocument "Pets" "List pets").generator .default
          "").typesDocument.render) ∧
    (summaryDocument "Pets" "List pets\nby owner").undescribed =
        (summaryDocument "Pets" "List pets").undescribed ∧
      codeLines ((summaryDocument "Pets" "List pets\nby owner").generator .default
          "").clientDocument.render ≠
        codeLines ((summaryDocument "Pets" "List pets").generator .default
          "").clientDocument.render := by
  have hsettings : Config.default.untitled = Config.default.untitled := rfl
  have htitle : (summaryDocument "Pets\nfor sale" "List pets").undescribed =
      (summaryDocument "Pets" "List pets").undescribed := rfl
  have hsummary : (summaryDocument "Pets" "List pets\nby owner").undescribed =
      (summaryDocument "Pets" "List pets").undescribed := rfl
  refine ⟨⟨htitle, ?_⟩, hsummary, ?_⟩
  · rw [Ne, codeLines_types_iff htitle hsettings]
    decide +kernel
  · intro hcode
    have hnone := overruns_of_codeLines_client hsummary hsettings "" (by decide +kernel) hcode
    exact absurd hnone (by decide +kernel)

end TypedClient
