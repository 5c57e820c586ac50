import Mathlib.Data.List.Sigma
import Mathlib.Tactic.Choose
import TypedClient.Proofs.Lowering

/-! The addresses of the schema objects of a document: a site where a schema object stands by itself,
and steps into parts. A walk of the document visits the schema object at every address, each once, and
none before one that it is inside of. What the API refers to is among what is visited. -/

namespace TypedClient.Document

/-! ### Addresses -/

/-- The part that a step leads to, and its location. -/
def Visit.part? (v : Visit) : Step → Option Visit
  | .items => v.schema.items.map fun s => ⟨v.location ++ ".items", s⟩
  | .property n =>
    (v.schema.properties.getD [])[n]?.map fun (name, s) => ⟨v.location ++ ".properties." ++ name, s⟩
  | .branch key n =>
    (v.schema.branches key)[n]?.map fun s => ⟨indexed v.location key.name n, s⟩

/-- What is reached by steps, one after the other. -/
def Visit.reach? (v : Visit) (steps : List Step) : Option Visit := steps.foldlM Visit.part? v

/-- The schema of a parameter in a list that is not a shared one. -/
def parameterAt? (location : String) (parameters : List Parameter) (n : Nat) : Option Visit :=
  parameters[n]?.bind fun p =>
    p.schema.map fun s => ⟨indexed location "parameters" n ++ ".schema", s⟩

def Operation.at? (op : Operation) (location : String) : OperationSite → Option Visit
  | .parameter n => parameterAt? location op.parameters n
  | .requestBody =>
    (op.requestBody.bind (jsonSchema ·.content)).map fun s => ⟨location ++ ".requestBody", s⟩
  | .response n =>
    op.responses[n]?.bind fun (status, response) =>
      (jsonSchema response.content).map fun s => ⟨location ++ ".responses." ++ status, s⟩

def PathItem.at? (item : PathItem) (location : String) : PathSite → Option Visit
  | .parameter n => parameterAt? location item.parameters n
  | .operation n site =>
    item.operations[n]?.bind fun (method, op) => op.at? (location ++ "." ++ method.lower) site

/-- The schema object that stands at a site. -/
def at? (d : Document) : Site → Option Visit
  | .schema n => d.components.schemas[n]?.map fun (name, s) => ⟨"components.schemas." ++ name, s⟩
  | .parameter n =>
    d.components.parameters[n]?.bind fun (name, p) =>
      p.schema.map fun s => ⟨"components.parameters." ++ name ++ ".schema", s⟩
  | .path n site => d.paths[n]?.bind fun (path, item) => item.at? ("paths." ++ path) site

/-- A place of a schema object in a document. -/
structure Address where
  site : Site
  steps : List Step

/-- The schema object at an address. -/
def find? (d : Document) (a : Address) : Option Visit := (d.at? a.site).bind (·.reach? a.steps)

/-- Whether an address is another one, or inside of it. -/
def Address.IsWithin (inner outer : Address) : Prop :=
  inner.site = outer.site ∧ outer.steps <+: inner.steps

/-! ### Enumerations -/

/-- The list has every index at which there is a value, once, and the value behind it. -/
structure Enumerates {ι α : Type} (at? : ι → Option α) (l : List (ι × α)) : Prop where
  mem_iff : ∀ i a, (i, a) ∈ l ↔ at? i = some a
  nodup : (l.map Prod.fst).Nodup

theorem nodup_map_zipIdx {α ι : Type} {c : Nat → ι} (hc : c.Injective) (l : List α) :
    (l.zipIdx.map fun p => c p.2).Nodup := by
  have := (List.nodup_zipIdx_map_snd l).map hc
  rwa [List.map_map] at this

/-- Lists of indices that tell the positions of the elements they belong to. -/
theorem nodup_flatMap_zipIdx {α ι : Type} {l : List α} {f : α × Nat → List ι}
    (hinner : ∀ p, (f p).Nodup) (hapart : ∀ {p q i}, i ∈ f p → i ∈ f q → p.2 = q.2) :
    (l.zipIdx.flatMap f).Nodup := by
  have hpositions : l.zipIdx.Pairwise fun p q => p.2 ≠ q.2 :=
    List.pairwise_map.mp (List.nodup_zipIdx_map_snd l)
  refine List.nodup_flatMap.mpr ⟨fun p _ => hinner p, hpositions.imp fun hne i hp hq => ?_⟩
  exact hne (hapart hp hq)

theorem nodup_optional {α β ι : Type} {c : Nat → ι} (hc : c.Injective) (o : α → Option β) (l : List α) :
    (l.zipIdx.flatMap fun p => (o p.1).toList.map fun _ => c p.2).Nodup := by
  refine nodup_flatMap_zipIdx (fun p => ?_) fun hp hq => ?_
  · cases o p.1 <;> simp
  · obtain ⟨_, _, rfl⟩ := List.mem_map.mp hp
    obtain ⟨_, _, heq⟩ := List.mem_map.mp hq
    exact (hc heq).symm

theorem nodup_nested {α κ ι : Type} {c : Nat → κ → ι} (hc : Function.Injective2 c) {keys : α → List κ}
    (hkeys : ∀ a, (keys a).Nodup) (l : List α) :
    (l.zipIdx.flatMap fun p => (keys p.1).map (c p.2)).Nodup := by
  refine nodup_flatMap_zipIdx (fun p => (hkeys p.1).map (hc.right p.2)) fun hp hq => ?_
  obtain ⟨_, _, rfl⟩ := List.mem_map.mp hp
  obtain ⟨_, _, heq⟩ := List.mem_map.mp hq
  exact (hc heq).1.symm

/-! ### Parts -/

theorem nodup_parts (v : Visit) : (v.parts.map Prod.fst).Nodup := by
  have hkeys : v.parts.map Prod.fst =
      (v.schema.items.toList.map fun _ => Step.items) ++
        ((v.schema.properties.getD []).zipIdx.map fun p => .property p.2) ++
        [BranchKey.allOf, .oneOf, .anyOf].flatMap fun key =>
          (v.schema.branches key).zipIdx.map fun p => .branch key p.2 := by
    simp [Visit.parts, Function.comp_def]
  have hbranches (key : BranchKey) :
      ((v.schema.branches key).zipIdx.map fun p => Step.branch key p.2).Nodup :=
    nodup_map_zipIdx (fun _ _ h => (Step.branch.inj h).2) _
  rw [hkeys, List.nodup_append, List.nodup_append, List.nodup_flatMap]
  refine ⟨⟨?_, nodup_map_zipIdx (fun _ _ => Step.property.inj) _, ?_⟩,
    ⟨fun key _ => hbranches key, ?_⟩, ?_⟩
  · cases v.schema.items <;> simp
  · rintro step hitems _ hproperty rfl
    cases step <;> simp at hitems hproperty
  · have hapart {key key' : BranchKey} (hne : key ≠ key') : List.Disjoint
        ((v.schema.branches key).zipIdx.map fun p => Step.branch key p.2)
        ((v.schema.branches key').zipIdx.map fun p => Step.branch key' p.2) := by
      rintro step hstep hstep'
      cases step <;> simp_all
    simp [Function.onFun, hapart]
  · rintro step hstep _ hbranch rfl
    cases step <;> simp at hstep hbranch

theorem enumerates_parts (v : Visit) : Enumerates v.part? v.parts where
  nodup := nodup_parts v
  mem_iff step w := by
    cases step with
    | items => simp [Visit.parts, Visit.part?]
    | property n => simp [Visit.parts, Visit.part?, List.mk_mem_zipIdx_iff_getElem?]
    | branch key n =>
      cases key <;> simp [Visit.parts, Visit.part?, List.mk_mem_zipIdx_iff_getElem?]

/-- A schema object, then what is listed for each of its parts behind the step to that part. -/
def Visit.reached (v : Visit) (lists : Visit → List (List Step × Visit)) :
    List (List Step × Visit) :=
  ([], v) :: v.parts.flatMap fun p => (lists p.2).map fun q => (p.1 :: q.1, q.2)

/-- The list has what is reached from a schema object, in the order of its walk, and nothing stands
before what it is inside of. -/
structure Visit.Reaches (v : Visit) (l : List (List Step × Visit)) : Prop where
  mem_iff : ∀ steps w, (steps, w) ∈ l ↔ v.reach? steps = some w
  walk : l.map Prod.snd = v.walk
  ordered : l.Pairwise fun p q => ¬q.1 <+: p.1

section Reached

variable {v : Visit} {lists : Visit → List (List Step × Visit)}
  (h : ∀ p ∈ v.parts, p.2.Reaches (lists p.2))

include h

theorem mem_reached (steps : List Step) (w : Visit) :
    (steps, w) ∈ v.reached lists ↔ v.reach? steps = some w := by
  have hpart := (enumerates_parts v).mem_iff
  cases steps with
  | nil => simp [Visit.reached, Visit.reach?, eq_comm]
  | cons step steps =>
    have hreach : v.reach? (step :: steps) = (v.part? step).bind (·.reach? steps) := rfl
    rw [hreach, Option.bind_eq_some_iff]
    constructor
    · intro hmem
      obtain ⟨⟨_, u⟩, hu, hmem⟩ := List.mem_flatMap.mp ((List.mem_cons.mp hmem).resolve_left nofun)
      obtain ⟨_, hq, heq⟩ := List.mem_map.mp hmem
      obtain ⟨hsteps, rfl⟩ := Prod.mk.inj heq
      obtain ⟨rfl, rfl⟩ := List.cons.inj hsteps
      exact ⟨u, (hpart _ _).mp hu, ((h _ hu).mem_iff _ _).mp hq⟩
    · rintro ⟨u, hu, hw⟩
      have hu := (hpart _ _).mpr hu
      have hw := ((h _ hu).mem_iff _ _).mpr hw
      exact List.mem_cons_of_mem _ (List.mem_flatMap.mpr ⟨_, hu, List.mem_map_of_mem hw⟩)

theorem map_snd_reached : (v.reached lists).map Prod.snd = v.walk := by
  rw [walk_eq, Visit.reached, List.map_cons, List.map_flatMap]
  refine congrArg _ (List.flatMap_congr fun p hp => ?_)
  rw [← (h p hp).walk, List.map_map]
  rfl

/-- Inside of one part the order is that of the part; lists of two parts differ in the first step. -/
theorem ordered_reached : (v.reached lists).Pairwise fun p q => ¬q.1 <+: p.1 := by
  refine List.pairwise_cons.mpr ⟨fun q hq => ?_, List.pairwise_flatMap.mpr ⟨fun p hp => ?_, ?_⟩⟩
  · obtain ⟨p, _, hq⟩ := List.mem_flatMap.mp hq
    obtain ⟨_, _, rfl⟩ := List.mem_map.mp hq
    simp
  · refine List.pairwise_map.mpr ((h p hp).ordered.imp fun hnot hprefix => hnot ?_)
    exact (List.cons_prefix_cons.mp hprefix).2
  · refine (List.pairwise_map.mp (enumerates_parts v).nodup).imp fun hne x hx y hy hprefix => hne ?_
    obtain ⟨_, _, rfl⟩ := List.mem_map.mp hx
    obtain ⟨_, _, rfl⟩ := List.mem_map.mp hy
    exact (List.cons_prefix_cons.mp hprefix).1.symm

end Reached

/-- The induction is over the parts of the schema object, for all locations at once. -/
theorem exists_reaches (s : Schema) (location : String) : ∃ l, Visit.Reaches ⟨location, s⟩ l := by
  induction s using Schema.byParts generalizing location with
  | step s ih =>
    have hparts : ∀ w : Visit, w.schema ∈ s.parts → ∃ l, w.Reaches l := fun w hw => ih _ hw w.location
    choose! lists hlists using hparts
    have hreaches : ∀ p ∈ Visit.parts ⟨location, s⟩, p.2.Reaches (lists p.2) :=
      fun p hp => hlists p.2 (mem_parts_of_mem hp)
    exact ⟨Visit.reached ⟨location, s⟩ lists, mem_reached hreaches, map_snd_reached hreaches,
      ordered_reached hreaches⟩

/-! ### Sites -/

theorem enumerates_parameterVisits (location : String) (parameters : List Parameter) :
    Enumerates (parameterAt? location parameters) (parameterVisits location parameters) where
  mem_iff n v := by
    simp [parameterVisits, parameterAt?, List.mk_mem_zipIdx_iff_getElem?, Option.bind_eq_some_iff]
  nodup := by
    have hkeys := nodup_optional Function.injective_id Parameter.schema parameters
    simpa [parameterVisits, List.map_flatMap, Function.comp_def] using hkeys

theorem enumerates_operation (op : Operation) (location : String) :
    Enumerates (op.at? location) (op.visits location) where
  mem_iff site v := by
    have hparameters := (enumerates_parameterVisits location op.parameters).mem_iff
    cases site with
    | parameter n => simp [Operation.visits, Operation.at?, hparameters]
    | requestBody => simp [Operation.visits, Operation.at?, -Option.map_bind]
    | response n =>
      simp [Operation.visits, Operation.at?, List.mk_mem_zipIdx_iff_getElem?, Option.bind_eq_some_iff]
  nodup := by
    have hkeys : (op.visits location).map Prod.fst =
        ((parameterVisits location op.parameters).map Prod.fst).map .parameter ++
          ((op.requestBody.bind (jsonSchema ·.content)).toList.map fun _ => .requestBody) ++
          op.responses.zipIdx.flatMap fun p =>
            (jsonSchema p.1.2.content).toList.map fun _ => .response p.2 := by
      simp [Operation.visits, List.map_flatMap, Function.comp_def]
    have hparameters : (((parameterVisits location op.parameters).map Prod.fst).map
        OperationSite.parameter).Nodup :=
      (enumerates_parameterVisits ..).nodup.map fun _ _ => OperationSite.parameter.inj
    have hresponses := nodup_optional (fun _ _ => OperationSite.response.inj)
      (fun p : String × Response => jsonSchema p.2.content) op.responses
    rw [hkeys, List.nodup_append, List.nodup_append]
    refine ⟨⟨hparameters, ?_, ?_⟩, hresponses, ?_⟩
    · cases op.requestBody.bind (jsonSchema ·.content) <;> simp
    · rintro site hparameter _ hbody rfl
      cases site <;> simp at hparameter hbody
    · rintro site hsite _ hresponse rfl
      cases site <;> simp at hsite hresponse

theorem enumerates_pathItem (item : PathItem) (location : String) :
    Enumerates (item.at? location) (item.visits location) where
  mem_iff site v := by
    have hparameters := (enumerates_parameterVisits location item.parameters).mem_iff
    cases site with
    | parameter n => simp [PathItem.visits, PathItem.at?, hparameters]
    | operation n site =>
      simp [PathItem.visits, PathItem.at?, List.mk_mem_zipIdx_iff_getElem?, Option.bind_eq_some_iff,
        (enumerates_operation _ _).mem_iff]
  nodup := by
    have hkeys : (item.visits location).map Prod.fst =
        ((parameterVisits location item.parameters).map Prod.fst).map .parameter ++
          item.operations.zipIdx.flatMap fun p =>
            ((p.1.2.visits (location ++ "." ++ p.1.1.lower)).map Prod.fst).map (.operation p.2) := by
      simp [PathItem.visits, List.map_flatMap, Function.comp_def]
    have hparameters : (((parameterVisits location item.parameters).map Prod.fst).map
        PathSite.parameter).Nodup :=
      (enumerates_parameterVisits ..).nodup.map fun _ _ => PathSite.parameter.inj
    have hoperations := nodup_nested (c := PathSite.operation) (fun _ _ _ _ => PathSite.operation.inj)
      (fun p : Route.Method × Operation =>
        (enumerates_operation p.2 (location ++ "." ++ p.1.lower)).nodup) item.operations
    rw [hkeys, List.nodup_append]
    refine ⟨hparameters, hoperations, ?_⟩
    rintro site hparameter _ hoperation rfl
    cases site <;> simp at hparameter hoperation

theorem enumerates_siteVisits (d : Document) : Enumerates d.at? d.siteVisits where
  mem_iff site v := by
    cases site with
    | schema n => simp [siteVisits, at?, List.mk_mem_zipIdx_iff_getElem?]
    | parameter n =>
      simp [siteVisits, at?, List.mk_mem_zipIdx_iff_getElem?, Option.bind_eq_some_iff]
    | path n site =>
      simp [siteVisits, at?, List.mk_mem_zipIdx_iff_getElem?, Option.bind_eq_some_iff,
        (enumerates_pathItem _ _).mem_iff]
  nodup := by
    have hkeys : d.siteVisits.map Prod.fst =
        (d.components.schemas.zipIdx.map fun p => .schema p.2) ++
          (d.components.parameters.zipIdx.flatMap fun p =>
            p.1.2.schema.toList.map fun _ => .parameter p.2) ++
          d.paths.zipIdx.flatMap fun p =>
            ((p.1.2.visits ("paths." ++ p.1.1)).map Prod.fst).map (.path p.2) := by
      simp [siteVisits, List.map_flatMap, Function.comp_def]
    have hschemas := nodup_map_zipIdx (fun _ _ => Site.schema.inj) d.components.schemas
    have hparameters := nodup_optional (fun _ _ => Site.parameter.inj)
      (fun p : String × Parameter => p.2.schema) d.components.parameters
    have hpaths := nodup_nested (c := Site.path) (fun _ _ _ _ => Site.path.inj)
      (fun p : String × PathItem => (enumerates_pathItem p.2 ("paths." ++ p.1)).nodup) d.paths
    rw [hkeys, List.nodup_append, List.nodup_append]
    refine ⟨⟨hschemas, hparameters, ?_⟩, hpaths, ?_⟩
    · rintro site hschema _ hparameter rfl
      cases site <;> simp at hschema hparameter
    · rintro site hsite _ hpath rfl
      cases site <;> simp at hsite hpath

/-! ### Documents -/

/-- What is listed from the site of each schema object, behind the addresses. -/
def addressed (d : Document) (lists : Visit → List (List Step × Visit)) : List (Address × Visit) :=
  d.siteVisits.flatMap fun p => (lists p.2).map fun q => (⟨p.1, q.1⟩, q.2)

section Addressed

variable {lists : Visit → List (List Step × Visit)} (h : ∀ v : Visit, v.Reaches (lists v))
  (d : Document)

include h

theorem mem_addressed (a : Address) (v : Visit) : (a, v) ∈ d.addressed lists ↔ d.find? a = some v := by
  have hsite := (enumerates_siteVisits d).mem_iff
  rw [find?, Option.bind_eq_some_iff]
  constructor
  · intro hmem
    obtain ⟨⟨site, u⟩, hu, hmem⟩ := List.mem_flatMap.mp hmem
    obtain ⟨_, hq, heq⟩ := List.mem_map.mp hmem
    obtain ⟨rfl, rfl⟩ := Prod.mk.inj heq
    exact ⟨u, (hsite _ _).mp hu, ((h u).mem_iff _ _).mp hq⟩
  · rintro ⟨u, hu, hv⟩
    have hv := ((h u).mem_iff _ _).mpr hv
    exact List.mem_flatMap.mpr ⟨_, (hsite _ _).mpr hu, List.mem_map_of_mem hv⟩

theorem map_snd_addressed : (d.addressed lists).map Prod.snd = d.walk := by
  rw [walk_eq_siteVisits, addressed, List.map_flatMap]
  refine List.flatMap_congr fun p _ => ?_
  rw [← (h p.2).walk, List.map_map]
  rfl

theorem ordered_addressed : (d.addressed lists).Pairwise fun p q => ¬p.1.IsWithin q.1 := by
  refine List.pairwise_flatMap.mpr ⟨fun p _ => ?_, ?_⟩
  · exact List.pairwise_map.mpr ((h p.2).ordered.imp fun hnot hwithin => hnot hwithin.2)
  · refine (List.pairwise_map.mp (enumerates_siteVisits d).nodup).imp fun hne x hx y hy hwithin => hne ?_
    obtain ⟨_, _, rfl⟩ := List.mem_map.mp hx
    obtain ⟨_, _, rfl⟩ := List.mem_map.mp hy
    exact hwithin.1

end Addressed

/-- The visits of a walk of a document can be put behind addresses: behind each address at which there
is a schema object, once, so that none stands before one that it is inside of. And for each reference
of the API there is a visited one with the same name. -/
theorem walk_addresses_and_references (d : Document) :
    (∃ visits : List (Address × Visit), visits.map Prod.snd = d.walk ∧
      (∀ a v, (a, v) ∈ visits ↔ d.find? a = some v) ∧ (visits.map Prod.fst).Nodup ∧
      visits.Pairwise fun earlier later => ¬earlier.1.IsWithin later.1) ∧
    ∀ name ∈ (Api.ofDocument d).references,
      ∃ v ∈ d.walk, v.schema.reference.map referenceName = some name := by
  refine ⟨?_, fun name hname => ?_⟩
  · choose lists hlists using fun v : Visit => exists_reaches v.schema v.location
    have hordered := ordered_addressed hlists d
    refine ⟨d.addressed lists, map_snd_addressed hlists d, mem_addressed hlists d, ?_, hordered⟩
    refine List.pairwise_map.mpr (hordered.imp fun hnot heq => hnot ?_)
    exact ⟨congrArg Address.site heq, congrArg Address.steps heq ▸ List.prefix_rfl⟩
  · obtain ⟨pointer, hkeeps, rfl⟩ := mem_references_api.mp hname
    obtain ⟨v, hv, href⟩ := hkeeps.visited
    exact ⟨v, hv, congrArg (Option.map referenceName) href⟩

end TypedClient.Document
