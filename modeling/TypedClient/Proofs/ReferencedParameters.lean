import TypedClient.Lint.References
import TypedClient.Proofs.Lowering

/-! What becomes of the entries of parameter lists that are references. An entry that leads nowhere is
reported where it stands. What another one leads to reaches the client, or gives way to a parameter of
the operation in the same slot, or is skipped with a note. Only parameters without a name are left out
and nothing is said. -/

namespace TypedClient

open Document Lint Model

namespace Document

/-- The client has the parameter `q` as `m`. -/
structure Parameter.AppearsAs (q : Parameter) (m : Model.Parameter) : Prop where
  name : q.name = some m.name
  place : q.place = some .path ∧ m.place = .path ∨ q.place = some .query ∧ m.place = .query
  required : m.required = (q.required || m.place == .path)
  schema : m.schema = q.schema.map Schema.ofDocument
  description : m.description = q.description

/-- The entries of the two parameter lists of an operation, with the places where findings about them
are reported: its own, and those it shares with its path item. -/
def Endpoint.parameterEntries (e : Endpoint) : List (String × Parameter) :=
  e.operation.parameters.map (e.location, ·) ++ e.item.parameters.map ("paths." ++ e.path, ·)

/-- What becomes of an entry that is a reference: it shows in the operation or in a message. -/
inductive Accounted (d : Document) (config : Config) (e : Endpoint) (location : String)
    (entry : Parameter) : Prop
  /-- The parameter it refers to is in the operation. -/
  | appears (q : Parameter) (hq : d.resolveParameter entry = some q) (m : Model.Parameter)
    (hm : m ∈ (Operation.ofDocument d e).parameters) (h : q.AppearsAs m)
  /-- The entry is shared, and a parameter of the operation's own in the same slot is there. -/
  | overridden (hshared : entry ∈ e.item.parameters) (q : Parameter)
    (hq : d.resolveParameter entry = some q) (own r : Parameter)
    (hown : own ∈ e.operation.parameters) (hr : d.resolveParameter own = some r)
    (hslot : r.name = q.name ∧ r.place = q.place) (m : Model.Parameter)
    (hm : m ∈ (Operation.ofDocument d e).parameters) (h : r.AppearsAs m)
  /-- A note says that it is skipped. -/
  | skipped (q : Parameter) (hq : d.resolveParameter entry = some q) (name : String)
    (hname : q.name = some name) (h : skippedParameter e.location name q.place ∈ Api.skipped d)
  /-- A finding says that it leads nowhere. -/
  | reported (problem : String) (hproblem : parameterProblem d entry = some problem)
    (h : warning location problem ∈ unresolvedReference.check config d)

theorem mem_parameters_of_lowered {d : Document} {e : Endpoint} {q : Parameter}
    (hq : q ∈ d.effectiveParameters e.item e.operation) {m : Model.Parameter}
    (h : lowerParameter e.location q = some (.inl m)) : m ∈ (Operation.ofDocument d e).parameters := by
  have hlowered : .inl m ∈ lowerParameters d e := List.mem_filterMap.mpr ⟨q, hq, h⟩
  exact List.mem_filterMap.mpr ⟨.inl m, hlowered, rfl⟩

theorem mem_skipped_of_lowered {d : Document} {e : Endpoint} (he : e ∈ d.endpoints) {q : Parameter}
    (hq : q ∈ d.effectiveParameters e.item e.operation) {f : Diagnostic}
    (h : lowerParameter e.location q = some (.inr f)) : f ∈ Api.skipped d := by
  have hlowered : .inr f ∈ lowerParameters d e := List.mem_filterMap.mpr ⟨q, hq, h⟩
  exact List.mem_flatMap.mpr ⟨e, he, List.mem_filterMap.mpr ⟨.inr f, hlowered, rfl⟩⟩

/-- A parameter with a name is carried, or a note says that it is skipped. -/
theorem lowerParameter_of_named (location : String) {q : Parameter} {name : String}
    (hname : q.name = some name) (hgiven : name ≠ "") :
    (∃ m, lowerParameter location q = some (.inl m) ∧ q.AppearsAs m) ∨
      lowerParameter location q = some (.inr (skippedParameter location name q.place)) := by
  cases hplace : q.place with
  | none => exact .inr (by simp [lowerParameter, hname, hgiven, hplace])
  | some place =>
    cases place with
    | path =>
      refine .inl ⟨.ofDocument .path name q, ?_, hname, .inl ⟨hplace, rfl⟩, rfl, rfl, rfl⟩
      simp [lowerParameter, hname, hgiven, hplace]
    | query =>
      refine .inl ⟨.ofDocument .query name q, ?_, hname, .inr ⟨hplace, rfl⟩, rfl, rfl, rfl⟩
      simp [lowerParameter, hname, hgiven, hplace]
    | header => exact .inr (by simp [lowerParameter, hname, hgiven, hplace])
    | cookie => exact .inr (by simp [lowerParameter, hname, hgiven, hplace])
    | other => exact .inr (by simp [lowerParameter, hname, hgiven, hplace])

theorem appears_or_skipped {d : Document} {e : Endpoint} (he : e ∈ d.endpoints) {q : Parameter}
    (hq : q ∈ d.effectiveParameters e.item e.operation) {name : String} (hname : q.name = some name)
    (hgiven : name ≠ "") :
    (∃ m ∈ (Operation.ofDocument d e).parameters, q.AppearsAs m) ∨
      skippedParameter e.location name q.place ∈ Api.skipped d := by
  rcases lowerParameter_of_named e.location hname hgiven with ⟨m, h, happears⟩ | h
  · exact .inl ⟨m, mem_parameters_of_lowered hq h, happears⟩
  · exact .inr (mem_skipped_of_lowered he hq h)

/-- What an entry leads to applies to the operation, unless the entry is shared and the operation has
a parameter of its own in the same slot. -/
theorem effective_or_overridden {d : Document} {e : Endpoint} {location : String} {entry q : Parameter}
    (hentry : (location, entry) ∈ e.parameterEntries) (hq : d.resolveParameter entry = some q) :
    q ∈ d.effectiveParameters e.item e.operation ∨ entry ∈ e.item.parameters ∧
      ∃ own ∈ e.operation.parameters, ∃ r, d.resolveParameter own = some r ∧ r.name = q.name ∧
        r.place = q.place ∧ r ∈ d.effectiveParameters e.item e.operation := by
  have hown : ∀ {own r}, own ∈ e.operation.parameters → d.resolveParameter own = some r →
      r ∈ d.effectiveParameters e.item e.operation :=
    fun hmem hr => List.mem_append_right _ (List.mem_filterMap.mpr ⟨_, hmem, hr⟩)
  rcases List.mem_append.mp hentry with h | h
  · obtain ⟨own, hmem, heq⟩ := List.mem_map.mp h
    obtain ⟨_, rfl⟩ := Prod.mk.inj heq
    exact .inl (hown hmem hq)
  · obtain ⟨shared, hmem, heq⟩ := List.mem_map.mp h
    obtain ⟨_, rfl⟩ := Prod.mk.inj heq
    by_cases hany : (e.operation.parameters.filterMap d.resolveParameter).any (·.sameSlot q)
    · obtain ⟨r, hr, hslot⟩ := List.any_eq_true.mp hany
      obtain ⟨own, hown', hr⟩ := List.mem_filterMap.mp hr
      obtain ⟨hname, hplace⟩ : r.name = q.name ∧ r.place = q.place := by
        simpa [Parameter.sameSlot] using hslot
      exact .inr ⟨hmem, own, hown', r, hr, hname, hplace, hown hown' hr⟩
    · refine .inl (List.mem_append_left _ (List.mem_filter.mpr ⟨?_, by simpa using hany⟩))
      exact List.mem_filterMap.mpr ⟨_, hmem, hq⟩

/-- An entry that leads nowhere is reported where it stands. -/
theorem mem_unresolvedReference {d : Document} (config : Config) {e : Endpoint} (he : e ∈ d.endpoints)
    {location : String} {entry : Parameter} (hentry : (location, entry) ∈ e.parameterEntries)
    {problem : String} (h : parameterProblem d entry = some problem) :
    warning location problem ∈ unresolvedReference.check config d := by
  have hfinding : ∀ {location parameters}, entry ∈ parameters →
      warning location problem ∈ parameterFindings d location parameters :=
    fun hmem => List.mem_map_of_mem (List.mem_filterMap.mpr ⟨entry, hmem, h⟩)
  rcases List.mem_append.mp hentry with hmem | hmem
  · obtain ⟨own, hown, heq⟩ := List.mem_map.mp hmem
    obtain ⟨rfl, rfl⟩ := Prod.mk.inj heq
    exact List.mem_append_right _ (List.mem_flatMap.mpr ⟨e, he, hfinding hown⟩)
  · obtain ⟨shared, hshared, heq⟩ := List.mem_map.mp hmem
    obtain ⟨rfl, rfl⟩ := Prod.mk.inj heq
    refine List.mem_append_left _ (List.mem_append_right _ ?_)
    exact List.mem_flatMap.mpr ⟨_, (mem_endpoints he).1, hfinding hshared⟩

end Document

/-- No entry that is a reference is lost without a word, if what it leads to is no reference itself and
has a name. -/
theorem reference_accounted (d : Document) (config : Config) (e : Endpoint) (he : e ∈ d.endpoints)
    (location reference : String) (entry : Document.Parameter)
    (hentry : (location, entry) ∈ e.parameterEntries)
    (href : entry.reference = some reference)
    (htarget : ∀ q, d.resolveParameter entry = some q → q.reference = none) :
    Accounted d config e location entry ∨
      ∃ q, d.resolveParameter entry = some q ∧ q.reference = none ∧
        (q.name = none ∨ q.name = some "") := by
  cases hq : d.resolveParameter entry with
  | none =>
    have hproblem : ∃ problem, parameterProblem d entry = some problem := by
      simp [parameterProblem, href, hq]
    obtain ⟨problem, hproblem⟩ := hproblem
    exact .inl (.reported problem hproblem (mem_unresolvedReference config he hentry hproblem))
  | some q =>
    by_cases hnameless : q.name = none ∨ q.name = some ""
    · exact .inr ⟨q, rfl, htarget q hq, hnameless⟩
    · rw [not_or] at hnameless
      obtain ⟨name, hname⟩ := Option.ne_none_iff_exists'.mp hnameless.1
      have hgiven : name ≠ "" := by
        rintro rfl
        exact hnameless.2 hname
      left
      rcases effective_or_overridden hentry hq with
        heffective | ⟨hshared, own, hown, r, hr, hrname, hplace, hr'⟩
      · rcases appears_or_skipped he heffective hname hgiven with ⟨m, hm, h⟩ | h
        · exact .appears q hq m hm h
        · exact .skipped q hq name hname h
      -- A note about the parameter in its place reads the same: it tells the name and the place.
      · rcases appears_or_skipped he hr' (hrname.trans hname) hgiven with ⟨m, hm, h⟩ | h
        · exact .overridden hshared q hq own r hown hr ⟨hrname, hplace⟩ m hm h
        · exact .skipped q hq name hname (hplace ▸ h)

/-- The reference to the shared parameter `Limit`. -/
def limitEntry : Document.Parameter :=
  ⟨some (parameterPointer ++ "Limit"), none, none, false, none, none⟩

/-- A query parameter of the given name, if there is one. -/
def limitParameter (name : Option String) : Document.Parameter :=
  ⟨none, name, some .query, false, none, none⟩

/-- An operation that refers to the shared parameter. -/
def limitEndpoint : Endpoint :=
  let get : Document.Operation := ⟨none, none, none, [limitEntry], none, []⟩
  ⟨"/pets", .get, get, ⟨[], [(.get, get)], []⟩⟩

def limitDocument (name : Option String) : Document :=
  { Document.empty with
    paths := [("/pets", limitEndpoint.item)]
    components := { Components.empty with parameters := [("Limit", limitParameter name)] } }

theorem resolveParameter_limitEntry (name : Option String) :
    (limitDocument name).resolveParameter limitEntry = some (limitParameter name) := rfl

theorem limitEntry_accounted :
    limitEndpoint ∈ (limitDocument (some "limit")).endpoints ∧
      ("paths./pets.get", limitEntry) ∈ limitEndpoint.parameterEntries ∧
      Accounted (limitDocument (some "limit")) .default limitEndpoint "paths./pets.get" limitEntry := by
  have he : limitEndpoint ∈ (limitDocument (some "limit")).endpoints := List.mem_singleton.mpr rfl
  have hentry : ("paths./pets.get", limitEntry) ∈ limitEndpoint.parameterEntries :=
    List.mem_singleton.mpr rfl
  refine ⟨he, hentry, ?_⟩
  have htarget : ∀ q, (limitDocument (some "limit")).resolveParameter limitEntry = some q →
      q.reference = none := by
    intro q hq
    rw [resolveParameter_limitEntry] at hq
    obtain rfl := Option.some.inj hq
    rfl
  rcases reference_accounted (limitDocument (some "limit")) .default limitEndpoint he _ _ limitEntry
    hentry rfl htarget with h | ⟨q, hq, _, hnameless⟩
  · exact h
  · rw [resolveParameter_limitEntry] at hq
    obtain rfl := Option.some.inj hq
    simp [limitParameter] at hnameless

/-- A shared parameter without a name is left out, and nothing is said. -/
theorem nameless_not_accounted :
    limitEndpoint ∈ (limitDocument none).endpoints ∧
      ("paths./pets.get", limitEntry) ∈ limitEndpoint.parameterEntries ∧
      limitEntry.reference = some (parameterPointer ++ "Limit") ∧
      ¬Accounted (limitDocument none) .default limitEndpoint "paths./pets.get" limitEntry := by
  refine ⟨List.mem_singleton.mpr rfl, List.mem_singleton.mpr rfl, rfl, fun h => ?_⟩
  have hnone : ∀ {q}, (limitDocument none).resolveParameter limitEntry = some q → q.name = none := by
    intro q hq
    rw [resolveParameter_limitEntry] at hq
    obtain rfl := Option.some.inj hq
    rfl
  cases h with
  | appears q hq m _ happears => exact nomatch (hnone hq).symm.trans happears.name
  | overridden _ q hq _ r _ _ hslot m _ happears =>
    exact nomatch (hnone hq).symm.trans (hslot.1.symm.trans happears.name)
  | skipped q hq name hname _ => exact nomatch (hnone hq).symm.trans hname
  | reported problem hproblem _ =>
    have hquiet : parameterProblem (limitDocument none) limitEntry = none := rfl
    exact nomatch hquiet.symm.trans hproblem

end TypedClient
