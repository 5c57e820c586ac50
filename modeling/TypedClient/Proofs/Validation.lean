import TypedClient.Pipeline.Run
import TypedClient.Proofs.NameCollisions
import TypedClient.Proofs.Sequences

/-! When a run is stopped by what the lints find. Of the lints only the one about shared
names ever reports an error, and it does so for each of its findings when the settings ask
for unique identifiers. The later phases of a run never fail. -/

namespace TypedClient

open Diagnostic Document Route TypeScript

/-! ### How severe findings are -/

namespace Lint

variable {config : Config} {d : Document} {f : Diagnostic}

theorem severity_duplicateOperationId (h : f ∈ duplicateOperationId.check config d) :
    f.severity = if config.generation.uniqueOperationIds then .error else .warning := by
  rw [duplicateOperationId_check] at h
  obtain ⟨_, _, rfl⟩ := List.mem_map.mp h
  rfl

theorem eq_warning_of_mem_parameterFindings {location : String} {parameters : List Parameter}
    (h : f ∈ parameterFindings d location parameters) : ∃ message, f = warning location message := by
  obtain ⟨message, _, rfl⟩ := List.mem_map.mp h
  exact ⟨message, rfl⟩

theorem eq_warning_of_mem_unresolvedReference (h : f ∈ unresolvedReference.check config d) :
    ∃ location message, f = warning location message := by
  rcases List.mem_append.mp h with h | h
  · rcases List.mem_append.mp h with h | h
    · obtain ⟨v, _, hv⟩ := List.mem_filterMap.mp h
      obtain ⟨message, _, rfl⟩ := Option.map_eq_some_iff.mp hv
      exact ⟨v.location, message, rfl⟩
    · obtain ⟨_, _, h⟩ := List.mem_flatMap.mp h
      exact ⟨_, eq_warning_of_mem_parameterFindings h⟩
  · obtain ⟨_, _, h⟩ := List.mem_flatMap.mp h
    exact ⟨_, eq_warning_of_mem_parameterFindings h⟩

theorem eq_warning_of_mem_pathParameter (h : f ∈ pathParameter.check config d) :
    ∃ location message, f = warning location message := by
  obtain ⟨e, _, h⟩ := List.mem_flatMap.mp h
  rcases List.mem_append.mp h with h | h
  · obtain ⟨_, _, rfl⟩ := List.mem_map.mp h
    exact ⟨_, _, rfl⟩
  · obtain ⟨_, _, rfl⟩ := List.mem_map.mp h
    exact ⟨_, _, rfl⟩

theorem eq_note_of_mem_unsupportedSchema (h : f ∈ unsupportedSchema.check config d) :
    ∃ location message, f = note location message := by
  rcases List.mem_append.mp h with h | h
  · obtain ⟨v, _, h⟩ := List.mem_flatMap.mp h
    obtain ⟨message, _, rfl⟩ := List.mem_map.mp h
    exact ⟨v.location, message, rfl⟩
  · obtain ⟨e, _, h⟩ := List.mem_filterMap.mp h
    obtain ⟨message, _, rfl⟩ := Option.map_eq_some_iff.mp h
    exact ⟨e.location, message, rfl⟩

theorem eq_note_of_mem_missingResponse (h : f ∈ missingResponse.check config d) :
    ∃ location message, f = note location message := by
  obtain ⟨e, _, rfl⟩ := List.mem_map.mp h
  exact ⟨e.location, _, rfl⟩

theorem runAll_all (config : Config) (d : Document) : runAll all config d =
    duplicateOperationId.check config d ++ (unresolvedReference.check config d ++
      (pathParameter.check config d ++ (unsupportedSchema.check config d ++
        missingResponse.check config d))) := by
  simp [runAll, all]

/-- Without warnings and errors no names are shared. -/
theorem duplicateOperationId_of_infos (h : ∀ f ∈ runAll all config d, f.severity = .info) :
    duplicateOperationId.check config d = [] := by
  refine List.eq_nil_iff_forall_not_mem.mpr fun f hf => ?_
  have hinfo := h f (by simp [runAll_all, hf])
  rw [severity_duplicateOperationId hf] at hinfo
  split at hinfo <;> nomatch hinfo

end Lint

/-! ### Runs without plugins -/

namespace Pipeline

variable {ω : Type}

/-- Without plugins nothing stands around a phase. -/
theorem runPhase_nil (phase : Phase ω) : runPhase [] phase = phase.run := by
  funext session
  unfold runPhase
  cases h : phase.run session with
  | ok _ t => exact (bind_of_ok rfl).trans (bind_of_ok h)
  | error failure t => exact (bind_of_ok rfl).trans (bind_of_error h)

theorem validate_run (lints : List Lint) (c : Context) (world : ω) :
    (Phase.validate lints).run ⟨c, world⟩ =
      if (lint lints c).hasErrors then
        .error (.invalid (lint lints c).errorCount) ⟨lint lints c, world⟩
      else .ok () ⟨lint lints c, world⟩ := by
  cases h : (lint lints c).hasErrors <;> simp [Phase.validate, validated, h]

/-- The context in which a run ends that the lints let pass. -/
def passed (d : Document) (config : Config) : Context :=
  { lower (lint Lint.all (.new d config)) with counts := some (.ofApi (.ofDocument d)) }

/-- A run fails when the lints find errors, and in no other way. -/
theorem run_default (d : Document) (config : Config) (world : ω) :
    default.run d config world =
      if (lint Lint.all (.new d config)).hasErrors then
        .error (.invalid (lint Lint.all (.new d config)).errorCount)
          ⟨lint Lint.all (.new d config), world⟩
      else .ok () ⟨passed d config, world⟩ := by
  have hvalidate := validate_run Lint.all (.new d config) world
  simp only [run, steps, phases, default, List.append_nil, List.forM_eq_forM, List.forM_cons,
    List.forM_nil, runPhase_nil]
  cases herrors : (lint Lint.all (.new d config)).hasErrors with
  | true =>
    rw [herrors] at hvalidate
    exact bind_of_error hvalidate
  | false =>
    rw [herrors] at hvalidate
    -- Lowering never fails, and what it leaves behind is what the analysis needs.
    exact (bind_of_ok hvalidate).trans ((bind_of_ok rfl).trans (bind_of_ok rfl))

theorem hasErrors_eq (c : Context) : c.hasErrors = !(c.withSeverity .error).isEmpty := by
  rw [Bool.eq_iff_iff]
  simp [Context.hasErrors, Context.withSeverity]

end Pipeline

end TypedClient
