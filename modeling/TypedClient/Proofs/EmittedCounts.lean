import TypedClient.Proofs.Documentation
import TypedClient.Proofs.FactoryScope
import TypedClient.Proofs.TypesBlocks

/-! The counts that are told about an API, against the documents that are generated for it. In the
text of the types document the blocks in front of the marker and those behind it are counted by the
keyword that their code begins with. In the client document the functions are counted by the
constants that the factory binds, and the entries of its result by reading what it returns. -/

namespace TypedClient

open Code TypeScript

namespace TypeScript

/-! ### Keywords -/

def aliasKeyword : String := "export type "

def interfaceKeyword : String := "export interface "

/-- Whether the first line of code in a text begins with a keyword. -/
def opensWith (keyword text : String) : Bool :=
  (codeLines text).head?.any keyword.toList.isPrefixOf

/-- Comments of one line each stand in front of the code without changing how it begins. -/
theorem opensWith_commented (keyword : String) {comments : List String}
    (h : ∀ comment ∈ comments, '\n' ∉ comment.toList) {fragments : List Fragment}
    (hlined : areLined fragments = true) :
    opensWith keyword (Code.render (Fragment.comments comments ++ fragments)) =
      opensWith keyword (textsAt 0 fragments) := by
  have hcomments : codeOf (textsAt 0 (Fragment.comments comments)) = [] := by
    rw [codeOf_comments]
    exact List.flatMap_eq_nil_iff.mpr fun comment hc => overrun_eq_nil (h comment hc)
  have hall : areLined (Fragment.comments comments ++ fragments) = true := by simp [hlined]
  have hcode : codeLines (textsAt 0 (Fragment.comments comments ++ fragments)) =
      codeLines (textsAt 0 fragments) := by
    rw [codeLines_eq (lined_textsAt 0 _ hall), codeLines_eq (lined_textsAt 0 _ hlined),
      codeOf_textsAt_append 0 fragments (areLined_comments comments), hcomments, List.nil_append]
  rw [opensWith, render_eq, hcode, opensWith]

/-- A text opens with the keyword that it begins with. -/
theorem opensWith_keyword {keyword front : String}
    (hkeyword : keyword ∈ [aliasKeyword, interfaceKeyword])
    (hfront : front ∈ [aliasKeyword, interfaceKeyword]) (rest : String) :
    opensWith keyword (front ++ rest) = (keyword == front) := by
  have hline : ∀ front ∈ [aliasKeyword, interfaceKeyword], '\n' ∉ front.toList := by decide
  have hsplit := splitOn_append (hline front hfront) rest.toList
  rw [opensWith, codeLines, String.toList_append, hsplit]
  simp only [List.mem_cons, List.not_mem_nil, or_false] at hkeyword hfront
  rcases hkeyword with rfl | rfl <;> rcases hfront with rfl | rfl <;> rfl

/-- The keyword of a declaration. -/
def Declaration.keyword : Declaration → String
  | .alias _ => aliasKeyword
  | .interface _ => interfaceKeyword

def Declaration.comments : Declaration → List String
  | .alias a => a.comments
  | .interface i => i.comments

theorem keyword_mem (declaration : Declaration) :
    declaration.keyword ∈ [aliasKeyword, interfaceKeyword] := by
  cases declaration <;> simp [Declaration.keyword]

/-- Below its comments a declaration begins with its keyword. -/
theorem fragments_declaration (declaration : Declaration) : ∃ body rest,
    declaration.fragments = Fragment.comments declaration.comments ++ body ∧
      areLined body = true ∧ textsAt 0 body = declaration.keyword ++ rest := by
  match declaration with
  | .alias a =>
    have htext : textsAt 0 [.line ("export type " ++ a.name ++ " = " ++ a.type)] =
        aliasKeyword ++ (a.name ++ " = " ++ a.type ++ "\n") := by
      simp [textsAt, Fragment.textAt, lineAt, Buffer.indentation, aliasKeyword, String.append_assoc]
    exact ⟨_, _, rfl, rfl, htext⟩
  | .interface i =>
    cases hempty : i.fields.isEmpty with
    | true =>
      have htext : textsAt 0 [.line ("export interface " ++ i.name ++ " {}")] =
          interfaceKeyword ++ (i.name ++ " {}\n") := by
        simp [textsAt, Fragment.textAt, lineAt, Buffer.indentation, interfaceKeyword,
          String.append_assoc]
      exact ⟨_, _, by simp only [Declaration.fragments, Interface.fragments, hempty, if_true]; rfl,
        rfl, htext⟩
    | false =>
      have htext : textsAt 0 [.block ("export interface " ++ i.name ++ r" {")
          (fieldFragments i.fields) (some r"}")] =
          interfaceKeyword ++ (i.name ++ (r" {" ++ "\n") ++ textsAt 1 (fieldFragments i.fields) ++
            (r"}" ++ "\n")) := by
        simp [textsAt, Fragment.textAt, lineAt, closingAt, Buffer.indentation, interfaceKeyword,
          String.append_assoc]
      exact ⟨_, _, by simp [Declaration.fragments, Interface.fragments, hempty]; rfl,
        by simp [areLined, Fragment.isLined, areLined_fields], htext⟩

theorem opensWith_declaration {keyword : String}
    (hkeyword : keyword ∈ [aliasKeyword, interfaceKeyword]) {declaration : Declaration}
    (h : ∀ comment ∈ declaration.comments, '\n' ∉ comment.toList) :
    opensWith keyword (declarationBlock declaration) = (keyword == declaration.keyword) := by
  obtain ⟨body, rest, hfragments, hlined, htext⟩ := fragments_declaration declaration
  rw [declarationBlock, hfragments, opensWith_commented keyword h hlined, htext,
    opensWith_keyword hkeyword (keyword_mem declaration)]

/-! ### The blocks of the types document -/

namespace TypesDocument

variable (d : TypesDocument)

/-- The texts that the document is made of. -/
def blocks : List String := d.contents.sections.map Code.render

/-- The blocks between the header and the marker. -/
def schemaBlocks : List String := d.blocks.tail.takeWhile (· != markerBlock)

/-- The blocks behind the marker. -/
def endpointBlocks : List String := (d.blocks.tail.dropWhile (· != markerBlock)).tail

theorem declarationBlock_ne_marker {declaration : Declaration}
    (h : ∀ comment ∈ declaration.comments, '\n' ∉ comment.toList) :
    declarationBlock declaration ≠ markerBlock := by
  have hmarker : ∀ keyword ∈ [aliasKeyword, interfaceKeyword],
      opensWith keyword markerBlock = false := by decide
  have hkeyword := keyword_mem declaration
  intro heq
  have hopens := opensWith_declaration hkeyword h
  rw [heq, hmarker _ hkeyword, beq_self_eq_true] at hopens
  exact Bool.false_ne_true hopens

variable {d}

/-- As long as the comments of schemas are lines, the marker stands between the two kinds of
declarations. -/
theorem blocks_split (h : ∀ declaration ∈ d.schemas, ∀ comment ∈ declaration.comments,
    '\n' ∉ comment.toList) : d.schemaBlocks = d.schemas.map declarationBlock ∧
      d.endpointBlocks = d.endpointDeclarations.map declarationBlock := by
  have hmarker : Code.render [marker] = markerBlock := rfl
  have htail : d.blocks.tail = d.schemas.map declarationBlock ++
      markerBlock :: d.endpointDeclarations.map declarationBlock := by
    rw [blocks, sections_eq, List.map_cons, List.tail_cons, List.map_append, List.map_append,
      List.append_assoc, List.map_map, List.map_map, List.map_singleton, hmarker]
    rfl
  have hbefore : ∀ block ∈ d.schemas.map declarationBlock, (block != markerBlock) = true := by
    intro block hblock
    obtain ⟨declaration, hd, rfl⟩ := List.mem_map.mp hblock
    exact bne_iff_ne.mpr (declarationBlock_ne_marker (h declaration hd))
  rw [schemaBlocks, endpointBlocks, htail, List.takeWhile_append_of_pos hbefore,
    List.dropWhile_append_of_pos hbefore]
  simp

end TypesDocument

/-! ### Numbers of declarations -/

theorem countP_opensWith {keyword : String} (hkeyword : keyword ∈ [aliasKeyword, interfaceKeyword])
    {declarations : List Declaration}
    (h : ∀ declaration ∈ declarations, ∀ comment ∈ declaration.comments, '\n' ∉ comment.toList) :
    (declarations.map declarationBlock).countP (opensWith keyword) =
      declarations.countP fun declaration => keyword == declaration.keyword := by
  rw [List.countP_map]
  exact List.countP_congr fun declaration hd => by
    rw [Function.comp_apply, opensWith_declaration hkeyword (h declaration hd)]

/-- A declaration has one of the two keywords. -/
theorem countP_keywords (declarations : List Declaration) :
    (declarations.countP fun declaration => interfaceKeyword == declaration.keyword) +
        declarations.countP (fun declaration => aliasKeyword == declaration.keyword) =
      declarations.length := by
  have hother : ∀ declaration : Declaration, (aliasKeyword == declaration.keyword) =
      decide (¬(interfaceKeyword == declaration.keyword) = true) := by
    have hkeywords : (aliasKeyword == interfaceKeyword) = false ∧
        (interfaceKeyword == aliasKeyword) = false := by decide
    intro declaration
    cases declaration <;> simp [Declaration.keyword, hkeywords]
  simp only [hother]
  exact (List.length_eq_countP_add_countP _).symm

/-- Every operation has one response, and at most one request. -/
theorem countP_endpoints (endpoints : List EndpointTypes) :
    ((endpoints.flatMap EndpointTypes.declarations).countP fun d => aliasKeyword == d.keyword) =
        endpoints.length ∧
      ((endpoints.flatMap EndpointTypes.declarations).countP fun d =>
        interfaceKeyword == d.keyword) = endpoints.countP (·.request.isSome) := by
  have hkeywords : (aliasKeyword == interfaceKeyword) = false ∧
      (interfaceKeyword == aliasKeyword) = false := by decide
  induction endpoints with
  | nil => exact ⟨rfl, rfl⟩
  | cons e rest ih =>
    rw [List.flatMap_cons, List.countP_append, List.countP_append, ih.1, ih.2]
    obtain ⟨request, response⟩ := e
    cases request <;>
      simp [EndpointTypes.declarations, Declaration.keyword, hkeywords, Nat.add_comm]

theorem comments_ofEntry (compose : Config.Compose) (entry : Model.Entry) :
    (Declaration.ofEntry compose entry).comments = Text.noteLines entry.schema.description := by
  unfold Declaration.ofEntry
  split <;> rfl

theorem keyword_ofEntry (compose : Config.Compose) (entry : Model.Entry) :
    (aliasKeyword == (Declaration.ofEntry compose entry).keyword) = entry.schema.isLiterals := by
  unfold Declaration.ofEntry
  cases entry.schema.isLiterals <;> rfl

theorem isSome_request (s : Signature) : s.request.isSome = s.takesInput := by
  unfold Signature.request
  cases s.takesInput <;> rfl

/-! ### What the factory returns -/

/-- The names up to the closing brace, with commas between them. -/
def shorthands : List Token → Option (List String)
  | [.word name, .mark '}'] => some [String.ofList name]
  | .word name :: .mark ',' :: rest => (shorthands rest).map (String.ofList name :: ·)
  | _ => none

/-- The names in an object that is returned. -/
def returnedNames : List Token → Option (List String)
  | .word keyword :: .mark '{' :: rest =>
    if keyword = "return".toList then
      if rest = [.mark '}'] then some [] else shorthands rest
    else none
  | _ => none

/-- The names in the object that a piece of code returns. -/
def returned (code : Fragment) : Option (List String) :=
  (tokens (Code.render [code])).bind returnedNames

/-- Names with commas between them, and the closing brace. -/
def shorthandTokens : List String → List Token
  | [] => [.mark '}']
  | [name] => [.named name, .mark '}']
  | name :: rest => [.named name, .mark ','] ++ shorthandTokens rest

theorem shorthands_tokens {names : List String} (h : names ≠ []) :
    shorthands (shorthandTokens names) = some names := by
  induction names using shorthandTokens.induct with
  | case1 => exact absurd rfl h
  | case2 name => simp [shorthandTokens, shorthands, Token.named]
  | case3 name rest hrest ih =>
    have hne : rest ≠ [] := fun hnil => hrest hnil
    simp [shorthandTokens, shorthands, Token.named, ih hne]

/-- The lines of the entries, with the closing brace behind them. -/
theorem lexes_shorthands {names : List String} (hne : names ≠ [])
    (h : ∀ name ∈ names, IsCodeWord name) :
    Lexes false ((textsAt 1 (entryFragments (names.map .shorthand))).toList ++ ['}', '\n'])
      (shorthandTokens names) := by
  have hindent : lex (.code false) "  ".toList = some [] := rfl
  have hclose : lex (.code false) ['\n', '}', '\n'] = some [.mark '}'] := rfl
  have hcomma : lex (.code false) ",\n".toList = some [.mark ','] := rfl
  have hindentation : Buffer.indentation 1 = "  " := rfl
  induction names with
  | nil => exact absurd rfl hne
  | cons name rest ih =>
    have hname : Lexes false name.toList [.named name] := (h name (by simp)).lexes
    match rest with
    | [] =>
      have hlast := hname.append (.plain (by decide) hclose) rfl
      have hline := Lexes.after (by decide) hindent hlast rfl
      simpa [entryFragments, textsAt, Fragment.textAt, lineAt, Entry.line, hindentation,
        shorthandTokens] using hline
    | next :: rest =>
      have hrest := ih (by simp) fun other hother => h other (by simp [hother])
      have hbehind := hname.append (.after (by decide) hcomma hrest rfl) rfl
      have hline := Lexes.after (by decide) hindent hbehind rfl
      simpa [entryFragments, textsAt, Fragment.textAt, lineAt, Entry.line, hindentation,
        shorthandTokens] using hline

theorem returned_results {functions : List Function} (h : ∀ f ∈ functions, IsCodeWord f.name) :
    returned (ClientDocument.results functions) = some (functions.map Function.name) := by
  cases hempty : functions.isEmpty with
  | true =>
    rw [ClientDocument.results, if_pos hempty, List.isEmpty_iff.mp hempty]
    rfl
  | false =>
    have hne : functions.map Function.name ≠ [] := by simpa using hempty
    have hnames : ∀ name ∈ functions.map Function.name, IsCodeWord name := by simpa using h
    have hopen : lex (.code false) (r"return {" ++ "\n").toList =
        some [.named "return", .mark '{'] := rfl
    have htext : (Code.render [ClientDocument.results functions]).toList =
        (r"return {" ++ "\n").toList ++ ((textsAt 1 (entryFragments
          ((functions.map Function.name).map .shorthand))).toList ++ ['}', '\n']) := by
      rw [ClientDocument.results, if_neg (by simp [hempty]), render_eq, List.map_map]
      simp [textsAt, Fragment.textAt, lineAt, closingAt, Buffer.indentation, Function.comp_def]
    have htokens : tokens (Code.render [ClientDocument.results functions]) =
        some ([.named "return", .mark '{'] ++ shorthandTokens (functions.map Function.name)) := by
      apply Lexes.tokens_eq
      rw [htext]
      exact .after (by decide) hopen (lexes_shorthands hne hnames) rfl
    have hsome : shorthandTokens (functions.map Function.name) ≠ [.mark '}'] := by
      intro hnone
      have hread := shorthands_tokens hne
      rw [hnone] at hread
      cases hread
    rw [returned, htokens, Option.bind_some]
    simp [returnedNames, Token.named, hsome, shorthands_tokens hne]

end TypeScript

/-! ### The generated documents -/

namespace Generator

variable (g : Generator)

theorem comments_schemas {declaration : Declaration} (h : declaration ∈ g.typesDocument.schemas) :
    ∀ comment ∈ declaration.comments, '\n' ∉ comment.toList := by
  obtain ⟨entry, _, rfl⟩ := List.mem_map.mp h
  intro comment hcomment
  rw [comments_ofEntry] at hcomment
  exact Text.lineFeed_notMem_noteLines hcomment

theorem comments_endpoints {declaration : Declaration}
    (h : declaration ∈ g.typesDocument.endpointDeclarations) : declaration.comments = [] := by
  obtain ⟨e, he, hd⟩ := List.mem_flatMap.mp h
  obtain ⟨s, _, rfl⟩ := List.mem_map.mp he
  unfold EndpointTypes.declarations Signature.request at hd
  cases hinput : s.takesInput <;> simp [hinput] at hd
  · rw [hd]
    rfl
  · rcases hd with rfl | rfl <;> rfl

/-- The blocks in front of the marker: as many as schemas, the enums among them as aliases. -/
theorem schemaBlocks_counts :
    g.typesDocument.schemaBlocks.length = (Model.Counts.ofApi g.api).schemas ∧
      g.typesDocument.schemaBlocks.countP (opensWith aliasKeyword) =
        (Model.Counts.ofApi g.api).enums ∧
      g.typesDocument.schemaBlocks.countP (opensWith interfaceKeyword) +
        (Model.Counts.ofApi g.api).enums = (Model.Counts.ofApi g.api).schemas := by
  have hlines : ∀ declaration ∈ g.typesDocument.schemas, ∀ comment ∈ declaration.comments,
      '\n' ∉ comment.toList := fun _ => g.comments_schemas
  have henums : (g.typesDocument.schemas.countP fun d => aliasKeyword == d.keyword) =
      (Model.Counts.ofApi g.api).enums := by
    simp only [typesDocument, Model.Catalog.entries, Model.Counts.ofApi,
      ← List.countP_eq_length_filter, List.countP_map, Function.comp_def, keyword_ofEntry]
  have hlength : g.typesDocument.schemas.length = (Model.Counts.ofApi g.api).schemas := by
    simp only [typesDocument, Model.Catalog.entries, Model.Counts.ofApi, List.length_map]
  have hsum := countP_keywords g.typesDocument.schemas
  rw [henums, hlength] at hsum
  rw [(TypesDocument.blocks_split hlines).1, countP_opensWith (by simp) hlines,
    countP_opensWith (by simp) hlines, List.length_map]
  exact ⟨hlength, henums, hsum⟩

/-- The blocks behind the marker: a request for each operation that takes input, and a response for
each operation. -/
theorem endpointBlocks_counts :
    g.typesDocument.endpointBlocks.length =
        (Model.Counts.ofApi g.api).requestTypes + (Model.Counts.ofApi g.api).operations ∧
      g.typesDocument.endpointBlocks.countP (opensWith interfaceKeyword) =
        (Model.Counts.ofApi g.api).requestTypes ∧
      g.typesDocument.endpointBlocks.countP (opensWith aliasKeyword) =
        (Model.Counts.ofApi g.api).operations := by
  have hlines : ∀ declaration ∈ g.typesDocument.endpointDeclarations,
      ∀ comment ∈ declaration.comments, '\n' ∉ comment.toList := by
    intro declaration hd comment hcomment
    rw [g.comments_endpoints hd] at hcomment
    exact absurd hcomment List.not_mem_nil
  obtain ⟨haliases, hinterfaces⟩ := countP_endpoints g.typesDocument.endpoints
  have hoperations : g.typesDocument.endpoints.length = (Model.Counts.ofApi g.api).operations := by
    simp only [typesDocument, signatures, Model.Counts.ofApi, List.length_map]
  have hinput : ∀ op : Model.Operation,
      (Signature.ofOperation g.config.generation op).takesInput = op.takesInput := fun _ => rfl
  have hrequests : g.typesDocument.endpoints.countP (·.request.isSome) =
      (Model.Counts.ofApi g.api).requestTypes := by
    simp only [typesDocument, signatures, Model.Counts.ofApi, ← List.countP_eq_length_filter,
      List.countP_map, Function.comp_def, isSome_request, hinput]
  have hsum := countP_keywords g.typesDocument.endpointDeclarations
  rw [TypesDocument.endpointDeclarations, haliases, hinterfaces, hrequests, hoperations] at hsum
  rw [(TypesDocument.blocks_split fun _ => g.comments_schemas).2, List.length_map,
    countP_opensWith (by simp) hlines, countP_opensWith (by simp) hlines,
    TypesDocument.endpointDeclarations, haliases, hinterfaces]
  exact ⟨hsum.symm, hrequests, hoperations⟩

theorem names_functions : g.clientDocument.functions.map Function.name =
    (Model.Counts.ofApi g.api).operationIds.map functionName := by
  have hname : ∀ op : Model.Operation,
      (Signature.ofOperation g.config.generation op).function.name = functionName op.id := by
    intro op
    rw [Signature.function, functionName_ofOperation]
  simp only [clientDocument, signatures, Model.Counts.ofApi, List.map_map, Function.comp_def, hname]

end Generator

/-- The counts are those of the generated documents. The types document is made of blocks. In front
of the marker there are as many as schemas are counted, all of them declarations, and the aliases
among them are the enums; behind it there are the counted requests and one alias for each operation,
and nothing else. The factory of the client binds the base address and one function for each
operation, in order, and returns an object of the same names. -/
theorem counts_emitted (g : Generator) :
    let counts := Model.Counts.ofApi g.api
    let types := g.typesDocument
    let factory := ClientDocument.factory g.clientDocument.functions
    types.render = "\n".intercalate types.blocks ∧
      (types.schemaBlocks.length = counts.schemas ∧
        types.schemaBlocks.countP (opensWith aliasKeyword) = counts.enums ∧
        types.schemaBlocks.countP (opensWith interfaceKeyword) + counts.enums = counts.schemas) ∧
      (types.endpointBlocks.length = counts.requestTypes + counts.operations ∧
        types.endpointBlocks.countP (opensWith interfaceKeyword) = counts.requestTypes ∧
        types.endpointBlocks.countP (opensWith aliasKeyword) = counts.operations) ∧
      counts.operationIds.length = counts.operations ∧
      g.clientDocument.functions.map Function.name = counts.operationIds.map functionName ∧
      boundAll factory.body = "baseURL" :: counts.operationIds.map functionName ∧
      factory.body.getLast?.bind returned = some (counts.operationIds.map functionName) := by
  have hwell : ∀ s ∈ g.signatures, s.WellFormed := by
    intro s hs
    obtain ⟨op, _, rfl⟩ := List.mem_map.mp hs
    exact Signature.wellFormed_ofOperation g.config.generation op
  have hwords : ∀ f ∈ g.clientDocument.functions, IsCodeWord f.name := by
    intro f hf
    obtain ⟨s, hs, rfl⟩ := List.mem_map.mp hf
    exact (hwell s hs).function
  have hnames := g.names_functions
  have hbound := boundAll_factory hwell
  have hsame : g.signatures.map Signature.functionName =
      g.clientDocument.functions.map Function.name := by
    rw [Generator.clientDocument, List.map_map]
    rfl
  rw [hsame, hnames] at hbound
  have hrender : g.typesDocument.render = "\n".intercalate g.typesDocument.blocks :=
    Module.render_eq_intercalate g.typesDocument.contents
  refine ⟨hrender, g.schemaBlocks_counts, g.endpointBlocks_counts, List.length_map _, hnames,
    hbound, ?_⟩
  -- What the factory returns is the last piece of its body.
  rw [ClientDocument.factory, List.getLast?_concat, Option.bind_some, returned_results hwords, hnames]

end TypedClient
