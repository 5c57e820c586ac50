import TypedClient.Proofs.GenerationRuns
import TypedClient.Proofs.ShownTypes

/-! Declaring the identifiers that operations go by. The identifier of an operation has no blank
character at either end and names something in Pascal case, so that it is taken as it is once it is
declared. What is declared otherwise shows in no finding, no count and no document. -/

namespace TypedClient

open Document Lint Pipeline Route Text TypeScript

namespace Text

/-! ### Trimmed texts -/

theorem isBlank_of_isAlphanum {c : Char} (h : c.isAlphanum = true) : isBlank c = false := by
  have := isAlphanum_iff.mp h
  simp only [isBlank, Bool.or_eq_false_iff, Bool.and_eq_false_iff, decide_eq_false_iff_not,
    beq_eq_false_iff_ne]
  omega

/-- Nothing is trimmed off a text that has no blank character at either end. -/
theorem trimChars_eq_self {cs : List Char}
    (h : ∀ c, cs.head? = some c ∨ cs.getLast? = some c → isBlank c = false) : trimChars cs = cs := by
  have hdrop : ∀ l : List Char, (∀ c, l.head? = some c → isBlank c = false) →
      l.dropWhile isBlank = l := by
    intro l hl
    cases l with
    | nil => rfl
    | cons c l => exact List.dropWhile_cons_of_neg (by simp [hl c rfl])
  have hback : cs.reverse.dropWhile isBlank = cs.reverse :=
    hdrop cs.reverse fun c hc => h c (.inr (by simpa using hc))
  rw [trimChars, hdrop cs fun c hc => h c (.inl hc), hback, List.reverse_reverse]

theorem trimChars_trimChars (cs : List Char) : trimChars (trimChars cs) = trimChars cs := by
  have hdropped : ∀ (l : List Char) c, (l.dropWhile isBlank).head? = some c → isBlank c = false := by
    intro l c hc
    have h := List.head?_dropWhile_not isBlank l
    rwa [hc] at h
  refine trimChars_eq_self fun c hc => ?_
  rcases hc with hc | hc
  · -- what is left begins where the front was dropped
    obtain ⟨behind, hbehind⟩ : trimChars cs <+: cs.dropWhile isBlank := by
      rw [← List.reverse_suffix, trimChars, List.reverse_reverse]
      exact List.dropWhile_suffix _
    refine hdropped cs c ?_
    rw [← hbehind, List.head?_append, hc, Option.some_or]
  · rw [trimChars, List.getLast?_reverse] at hc
    exact hdropped _ c hc

theorem trim_trim (s : String) : trim (trim s) = trim s := by
  simp only [trim, String.toList_ofList, trimChars_trimChars]

end Text

namespace Route

variable (method : Method) (path : String) (declared : Option String)

theorem trim_derivedId : trim (derivedId method path) = derivedId method path := by
  have hmethod : ∀ c ∈ method.lower.toList, c.isAlphanum = true :=
    List.all_eq_true.mp (by cases method <;> decide)
  have hpath : ∀ c ∈ pascalChars (pathWords path.toList), c.isAlphanum = true := by
    by_cases hw : wordChars (pathWords path.toList) = []
    · simp [pascalChars, hw]
    · exact (isWord_pascalChars hw).2
  have hall : ∀ c ∈ (derivedId method path).toList, isBlank c = false := by
    intro c hc
    rw [derivedId, String.toList_append, String.toList_ofList, List.mem_append] at hc
    exact isBlank_of_isAlphanum (hc.elim (hmethod c) (hpath c))
  rw [trim, trimChars_eq_self, String.ofList_toList]
  rintro c (hc | hc)
  · exact hall c (List.mem_of_head? hc)
  · exact hall c (List.mem_of_getLast? hc)

/-- The identifier of an operation has no blank character at either end. -/
theorem trim_operationId :
    trim (operationId method path declared) = operationId method path declared := by
  unfold operationId
  split
  · next id hid =>
    obtain ⟨text, -, rfl⟩ := Option.map_eq_some_iff.mp hid
    split
    · exact trim_derivedId method path
    · exact trim_trim text
  · exact trim_derivedId method path

theorem pascalCase_operationId_ne : pascalCase (operationId method path declared) ≠ "" := by
  intro h
  exact wordChars_operationId method path declared (pascalCase_isEmpty_iff.mp (by rw [h]; rfl))

/-- The identifier of an operation stays when it is declared. -/
theorem operationId_operationId : operationId method path (some (operationId method path declared)) =
    operationId method path declared := by
  have hne := pascalCase_operationId_ne method path declared
  rw [operationId, Option.map_some, trim_operationId]
  exact if_neg (by simpa using hne)

end Route

/-! ### Documents -/

namespace Document

/-- The operation with the identifier declared that it goes by. -/
def Operation.identified (op : Operation) (method : Method) (path : String) : Operation :=
  { op with operationId := some (Route.operationId method path op.operationId) }

def PathItem.identified (item : PathItem) (path : String) : PathItem :=
  { item with
    operations := item.operations.map fun (method, op) => (method, op.identified method path) }

/-- The document with every identifier declared. -/
def identified (d : Document) : Document :=
  { d with paths := d.paths.map fun (path, item) => (path, item.identified path) }

def Endpoint.identified (e : Endpoint) : Endpoint :=
  { e with
    operation := e.operation.identified e.method e.path
    item := e.item.identified e.path }

variable (d : Document)

theorem endpoints_identified : d.identified.endpoints = d.endpoints.map Endpoint.identified := by
  simp only [endpoints, identified, PathItem.identified, List.flatMap_map, List.map_flatMap,
    List.map_map]
  rfl

/-- No schema is declared under an identifier. -/
theorem walk_identified : d.identified.walk = d.walk := by
  simp only [walk, identified, PathItem.identified, List.flatMap_map]
  rfl

end Document

/-! ### Findings -/

namespace Lint

variable (config : Config) (d : Document)

theorem endpointId_identified (e : Endpoint) : endpointId e.identified = endpointId e :=
  operationId_operationId e.method e.path e.operation.operationId

theorem collisions_identified (seen : List (String × String)) (es : List Endpoint) :
    collisions config seen (es.map Endpoint.identified) = collisions config seen es := by
  have hkey : ∀ e : Endpoint, nameKey e.identified = nameKey e :=
    fun e => congrArg pascalCase (endpointId_identified e)
  have hsite : ∀ e : Endpoint, callSite e.identified = callSite e := fun _ => rfl
  have hfinding : ∀ (e : Endpoint) first,
      collision config e.identified first = collision config e first := by
    intro e first
    rw [collision, endpointId_identified]
    rfl
  induction es generalizing seen with
  | nil => rfl
  | cons e rest ih => simp only [List.map_cons, collisions, hkey, hsite, hfinding, ih]

theorem duplicateOperationId_identified :
    duplicateOperationId.check config d.identified = duplicateOperationId.check config d := by
  have hcollisions := collisions_identified config [] d.endpoints
  rwa [← d.endpoints_identified] at hcollisions

theorem unresolvedReference_identified :
    unresolvedReference.check config d.identified = unresolvedReference.check config d := by
  simp only [unresolvedReference, d.walk_identified, d.endpoints_identified, List.flatMap_map]
  simp only [identified, List.flatMap_map]
  rfl

theorem pathParameter_identified :
    pathParameter.check config d.identified = pathParameter.check config d := by
  simp only [pathParameter, d.endpoints_identified, List.flatMap_map]
  rfl

theorem unsupportedSchema_identified :
    unsupportedSchema.check config d.identified = unsupportedSchema.check config d := by
  simp only [unsupportedSchema, d.walk_identified, d.endpoints_identified, List.filterMap_map]
  rfl

theorem missingResponse_identified :
    missingResponse.check config d.identified = missingResponse.check config d := by
  simp only [missingResponse, d.endpoints_identified, List.filter_map, List.map_map]
  rfl

/-- Every lint finds the same. -/
theorem check_identified {lint : Lint} (h : lint ∈ all) :
    lint.check config d.identified = lint.check config d := by
  simp only [all, List.mem_cons, List.not_mem_nil, or_false] at h
  rcases h with rfl | rfl | rfl | rfl | rfl
  · exact duplicateOperationId_identified config d
  · exact unresolvedReference_identified config d
  · exact pathParameter_identified config d
  · exact unsupportedSchema_identified config d
  · exact missingResponse_identified config d

end Lint

/-! ### The API -/

namespace Model

/-- The operation with the identifier declared that it goes by. -/
def Operation.identified (op : Operation) : Operation := { op with declaredId := some op.id }

theorem Operation.id_identified (op : Operation) : op.identified.id = op.id :=
  operationId_operationId op.method op.path op.declaredId

end Model

theorem signature_identified (settings : Config.Generation) (op : Model.Operation) :
    Signature.ofOperation settings op.identified = Signature.ofOperation settings op := by
  simp only [Signature.ofOperation, op.id_identified]
  rfl

section Api

variable (d : Document)

theorem operations_identified : (Api.ofDocument d.identified).operations =
    (Api.ofDocument d).operations.map Model.Operation.identified := by
  simp only [Api.ofDocument, d.endpoints_identified, List.map_map]
  rfl

theorem catalog_identified : (Api.ofDocument d.identified).catalog = (Api.ofDocument d).catalog := rfl

theorem skipped_identified : Api.skipped d.identified = Api.skipped d := by
  simp only [Api.skipped, d.endpoints_identified, List.flatMap_map]
  rfl

theorem counts_identified : Model.Counts.ofApi (.ofDocument d.identified) =
    Model.Counts.ofApi (.ofDocument d) := by
  have hinput : ∀ op : Model.Operation, op.identified.takesInput = op.takesInput := fun _ => rfl
  simp only [Model.Counts.ofApi, catalog_identified, operations_identified, List.length_map,
    List.filter_map, List.map_map, Function.comp_def, hinput, Model.Operation.id_identified]

theorem files_identified (config : Config) (now : String) :
    (d.identified.generator config now).files = (d.generator config now).files := by
  have hschemas : (d.identified.generator config now).typesDocument.schemas =
      (d.generator config now).typesDocument.schemas := by
    simp only [Generator.typesDocument, Document.generator, catalog_identified]
  refine Generator.files_congr rfl rfl rfl rfl hschemas ?_
  simp only [Generator.signatures, Document.generator, operations_identified, List.map_map]
  exact List.map_congr_left fun op _ => signature_identified config.generation op

end Api

/-! ### The two commands -/

section Commands

variable {d e : Document} {config : Config}

theorem linted_congr (h : runAll all config d = runAll all config e) :
    (linted d config).diagnostics = (linted e config).diagnostics := h

theorem hasErrors_linted_congr (h : runAll all config d = runAll all config e) :
    (linted d config).hasErrors = (linted e config).hasErrors := by
  rw [Context.hasErrors, linted_congr h, Context.hasErrors]

/-- The findings at the end of a run are those of the lints and the notes of lowering. -/
theorem passed_congr (hlints : runAll all config d = runAll all config e)
    (hskipped : Api.skipped d = Api.skipped e) :
    (passed d config).diagnostics = (passed e config).diagnostics :=
  congrArg₂ (· ++ ·) (linted_congr hlints) hskipped

/-- A check depends on the findings, the notes of lowering, and what is told about the API. -/
theorem check_congr (hlints : runAll all config d = runAll all config e)
    (hskipped : Api.skipped d = Api.skipped e)
    (hinfo : (Api.ofDocument d).info = (Api.ofDocument e).info)
    (hcounts : Model.Counts.ofApi (.ofDocument d) = Model.Counts.ofApi (.ofDocument e))
    (spec : String) : check d config spec = check e config spec := by
  have hlinted := linted_congr hlints
  have hpassed := passed_congr hlints hskipped
  have hsummary : ∀ f : Document, (passed f config).summary? =
      some ⟨config.client.title.getD (Api.ofDocument f).info.title, (Api.ofDocument f).info.version,
        .ofApi (.ofDocument f)⟩ := fun _ => rfl
  have hnone : ∀ f : Document, (linted f config).summary? = none := fun _ => rfl
  simp only [check, checked_eq, hasErrors_linted_congr hlints]
  cases (linted e config).hasErrors with
  | true => simp only [if_true, Context.withSeverity, hlinted, hnone]
  | false => simp [Context.withSeverity, hpassed, hsummary, hinfo, hcounts]

open Generate in
/-- A generation that leaves no snapshots depends on the findings, the notes of lowering, what is
told about the API, and the files. -/
theorem generate_documents_congr (hlints : runAll all config d = runAll all config e)
    (hskipped : Api.skipped d = Api.skipped e)
    (hinfo : (Api.ofDocument d).info = (Api.ofDocument e).info)
    (hcounts : Model.Counts.ofApi (.ofDocument d) = Model.Counts.ofApi (.ofDocument e)) {now : String}
    (hfiles : (d.generator config now).files = (e.generator config now).files) (dryRun : Bool) :
    generate d config ⟨dryRun, false⟩ now = generate e config ⟨dryRun, false⟩ now := by
  have herrors := hasErrors_linted_congr hlints
  cases h : (linted e config).hasErrors with
  | true =>
    have hcount : (linted d config).errorCount = (linted e config).errorCount := by
      simp only [Context.errorCount, Context.withSeverity, linted_congr hlints]
    funext disk
    rw [generate_of_errors d config _ now disk (herrors.trans h),
      generate_of_errors e config _ now disk h, hcount]
  | false =>
    have hpassed := passed_congr hlints hskipped
    have hsummary : ∀ f : Document, (⟨(f.generator config now).title,
        (f.generator config now).api.info.version, (f.generator config now).counts⟩ : Report.Summary) =
      ⟨config.client.title.getD (Api.ofDocument f).info.title, (Api.ofDocument f).info.version,
        .ofApi (.ofDocument f)⟩ := fun _ => rfl
    have hreport : report d config now = report e config now := by
      funext result
      simp only [report, hsummary, hinfo, hcounts, Context.warnings, Context.withSeverity, hpassed]
    have hproduce : produce (d.generator config now) = produce (e.generator config now) := by
      funext dir debug options disk
      simp only [produce, Generator.generate, hfiles]
    have hinspect : ∀ f : Document, inspect f config ⟨dryRun, false⟩ = fun _ => pure () :=
      fun _ => rfl
    rw [generate_of_passed d config _ now (herrors.trans h), generate_of_passed e config _ now h,
      hinspect, hinspect, hproduce, hreport]

end Commands

/-- To declare the identifier that an operation goes by changes nothing, whatever is declared
already. The identifier stays as it is, and it always names something in Pascal case. All lints find
the same, lowering notes the same, a check reports the same, and so does a generation, which leaves
the same files behind. Snapshots are left out: they show what is declared. -/
theorem identified_unchanged (d : Document) (config : Config) :
    (∀ method path declared,
      operationId method path (some (operationId method path declared)) =
          operationId method path declared ∧
        pascalCase (operationId method path declared) ≠ "") ∧
      (∀ lint ∈ Lint.all, lint.check config d.identified = lint.check config d) ∧
      Api.skipped d.identified = Api.skipped d ∧
      (∀ spec, check d.identified config spec = check d config spec) ∧
      (∀ now, (d.identified.generator config now).files = (d.generator config now).files) ∧
      ∀ dryRun now, generate d.identified config ⟨dryRun, false⟩ now =
        generate d config ⟨dryRun, false⟩ now := by
  have hlints : runAll all config d.identified = runAll all config d :=
    List.flatMap_congr fun _ h => check_identified config d h
  have hskipped := skipped_identified d
  have hcounts := counts_identified d
  refine ⟨fun method path declared => ⟨operationId_operationId method path declared,
    pascalCase_operationId_ne method path declared⟩, fun _ h => check_identified config d h, hskipped,
    fun spec => check_congr hlints hskipped rfl hcounts spec, files_identified d config, ?_⟩
  intro dryRun now
  exact generate_documents_congr hlints hskipped rfl hcounts (files_identified d config now) dryRun

end TypedClient
