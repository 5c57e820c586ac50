import TypedClient.Lint.Paths
import TypedClient.Proofs.OperationSources

/-! Parameters that a path item shares are a shorthand. Each operation may list them itself, in front of
its own and without those that it redeclares: the API, the notes about it and the findings about its
paths stay the same. -/

namespace TypedClient

open Document Lint Model

namespace Document

/-- Whether an operation has a parameter of its own in the slot of a shared entry. References are
followed on both sides. -/
def redeclares (d : Document) (op : Operation) (shared : Parameter) : Bool :=
  (d.resolveParameter shared).any fun p =>
    op.parameters.any fun own => (d.resolveParameter own).any (·.sameSlot p)

/-- The operation with the shared entries that it does not redeclare in front of its own. -/
def Operation.listing (op : Operation) (d : Document) (shared : List Parameter) : Operation :=
  { op with parameters := shared.filter (fun p => !d.redeclares op p) ++ op.parameters }

/-- A path item that shares nothing; its operations list what it shared. -/
def PathItem.unshared (item : PathItem) (d : Document) : PathItem :=
  { item with
    parameters := []
    operations := item.operations.map fun (method, op) => (method, op.listing d item.parameters) }

/-- The document with path items that share nothing. -/
def unshared (d : Document) : Document :=
  { d with paths := d.paths.map fun (path, item) => (path, item.unshared d) }

variable (d : Document)

/-- Leaving out what is redeclared before references are followed is the same as after. -/
theorem filterMap_not_redeclared (op : Operation) (shared : List Parameter) :
    (shared.filter fun p => !d.redeclares op p).filterMap d.resolveParameter =
      (shared.filterMap d.resolveParameter).filter fun p =>
        !(op.parameters.filterMap d.resolveParameter).any (·.sameSlot p) := by
  rw [List.filterMap_filter, List.filter_filterMap]
  congr 1
  funext p
  cases h : d.resolveParameter p with
  | none => simp
  | some q =>
    have hany : d.redeclares op p = (op.parameters.filterMap d.resolveParameter).any (·.sameSlot q) := by
      rw [redeclares, h, Option.any_some, List.any_filterMap]
      congr 1
    simp [hany, Option.filter]

theorem effectiveParameters_unshared (item : PathItem) (op : Operation) :
    d.unshared.effectiveParameters (item.unshared d) (op.listing d item.parameters) =
      d.effectiveParameters item op := by
  rw [effectiveParameters_congr (show d.unshared.components.parameters = d.components.parameters from rfl)]
  simp only [effectiveParameters, PathItem.unshared, Operation.listing, List.filterMap_nil,
    List.filter_nil, List.nil_append, List.filterMap_append, filterMap_not_redeclared]

/-- The operation where it stands in the document without shared parameters. -/
def Endpoint.unshared (e : Endpoint) : Endpoint :=
  { e with operation := e.operation.listing d e.item.parameters, item := e.item.unshared d }

theorem endpoints_unshared : d.unshared.endpoints = d.endpoints.map (Endpoint.unshared d) := by
  simp only [endpoints, Document.unshared, PathItem.unshared, List.flatMap_map, List.map_flatMap,
    List.map_map]
  rfl

theorem lowerParameters_unshared (e : Endpoint) :
    lowerParameters d.unshared (e.unshared d) = lowerParameters d e :=
  congrArg (List.filterMap (lowerParameter e.location)) (d.effectiveParameters_unshared e.item e.operation)

theorem ofDocument_unshared (e : Endpoint) :
    Operation.ofDocument d.unshared (e.unshared d) = Operation.ofDocument d e := by
  rw [Operation.ofDocument, lowerParameters_unshared]
  rfl

theorem pathFindings_unshared (e : Endpoint) :
    pathFindings d.unshared (e.unshared d) = pathFindings d e := by
  have hnames : pathParameterNames d.unshared (e.unshared d) = pathParameterNames d e :=
    congrArg (fun parameters => (parameters.filter (·.place == some .path)).filterMap (·.name))
      (d.effectiveParameters_unshared e.item e.operation)
  simp only [pathFindings, hnames]
  rfl

end Document

/-- The API of a document, the notes about it and the findings about its paths are the same when the
operations list what their path items share. -/
theorem api_and_findings_unshared (d : Document) :
    Api.ofDocument d.unshared = Api.ofDocument d ∧ Api.skipped d.unshared = Api.skipped d ∧
      ∀ config, pathParameter.check config d.unshared = pathParameter.check config d := by
  refine ⟨?_, ?_, fun config => ?_⟩
  · have hoperations : d.unshared.endpoints.map (Operation.ofDocument d.unshared) =
        d.endpoints.map (Operation.ofDocument d) := by
      rw [endpoints_unshared, List.map_map]
      exact List.map_congr_left fun e _ => d.ofDocument_unshared e
    rw [Api.ofDocument, hoperations]
    rfl
  · rw [Api.skipped, endpoints_unshared, List.flatMap_map]
    simp only [lowerParameters_unshared]
    rfl
  · change d.unshared.endpoints.flatMap (pathFindings d.unshared) = d.endpoints.flatMap (pathFindings d)
    rw [endpoints_unshared, List.flatMap_map]
    simp only [pathFindings_unshared]

end TypedClient
