import TypedClient.Generate
import TypedClient.Proofs.OperationSources
import TypedClient.Proofs.Validation

/-! A check of a document and a dry run of its generation. They put the same steps together in
their own ways: the run stops where a phase fails, the check goes on by hand. Both come to the
context that the lints leave, and from there, when no finding is an error, to the same API and
counts; what lowering adds are notes, which neither of them counts as warnings. -/

namespace TypedClient

open Diagnostic Files Generate Pipeline Report

/-! ### Findings -/

/-- Every finding of the lints tells its place. -/
theorem Lint.location_isSome {config : Config} {d : Document} {f : Diagnostic}
    (h : f ∈ runAll all config d) : f.location.isSome = true := by
  rw [runAll_all] at h
  simp only [List.mem_append] at h
  rcases h with h | h | h | h | h
  · rw [duplicateOperationId_check] at h
    obtain ⟨_, _, rfl⟩ := List.mem_map.mp h
    rfl
  · obtain ⟨_, _, rfl⟩ := eq_warning_of_mem_unresolvedReference h
    rfl
  · obtain ⟨_, _, rfl⟩ := eq_warning_of_mem_pathParameter h
    rfl
  · obtain ⟨_, _, rfl⟩ := eq_note_of_mem_unsupportedSchema h
    rfl
  · obtain ⟨_, _, rfl⟩ := eq_note_of_mem_missingResponse h
    rfl

/-- What is said about skipped parameters is neither an error nor a warning. -/
theorem Api.severity_skipped {d : Document} {f : Diagnostic} (h : f ∈ Api.skipped d) :
    f.severity = .info := by
  obtain ⟨e, _, h⟩ := List.mem_flatMap.mp h
  obtain ⟨lowered, hlowered, h⟩ := List.mem_filterMap.mp h
  obtain ⟨p, _, hp⟩ := List.mem_filterMap.mp hlowered
  cases lowered with
  | inl _ => cases h
  | inr note =>
    obtain rfl : note = f := Option.some.inj h
    unfold Model.lowerParameter at hp
    split at hp
    · cases hp
    split at hp
    · cases hp
    split at hp
    · cases Option.some.inj hp
    · cases Option.some.inj hp
    · rw [← Sum.inr.inj (Option.some.inj hp)]
      rfl

namespace Pipeline

variable (d : Document) (config : Config)

/-- The context behind the lints. -/
def linted : Context := lint Lint.all (.new d config)

/-- The findings at the end of a run are warnings, or not, as they were behind the lints. -/
theorem withSeverity_passed {severity : Severity} (h : severity ≠ .info) :
    (passed d config).withSeverity severity = (linted d config).withSeverity severity := by
  have hskipped : (Api.skipped d).filter (·.severity == severity) = [] := by
    refine List.filter_eq_nil_iff.mpr fun f hf => ?_
    rw [Api.severity_skipped hf]
    simpa using Ne.symm h
  have hdiagnostics : (passed d config).diagnostics =
      (linted d config).diagnostics ++ Api.skipped d := rfl
  rw [Context.withSeverity, hdiagnostics, List.filter_append, hskipped, List.append_nil]
  rfl

end Pipeline

/-! ### The two commands -/

theorem checked_eq (d : Document) (config : Config) :
    checked (.new d config) =
      if (linted d config).hasErrors then linted d config else passed d config := rfl

theorem ofContext_passed (d : Document) (config : Config) (now : String) :
    Generator.ofContext (passed d config) now = .ok (d.generator config now) := rfl

/-- A dry run leaves the disk as it is. -/
theorem generate_dryRun (d : Document) (config : Config) (now : String) (disk : Disk) :
    generate d config ⟨true, false⟩ now disk =
      if (linted d config).hasErrors then
        .error (.pipeline (.invalid (linted d config).errorCount)) disk
      else .ok
        { summary := ⟨(d.generator config now).title, (d.generator config now).api.info.version,
            (d.generator config now).counts⟩
          warnings := (passed d config).warnings.map (·.message)
          result := .preview (d.generator config now).files } disk := by
  have hrun := run_default d config disk
  cases herrors : (linted d config).hasErrors with
  | true =>
    have hfails : (Generate.pipeline (join config.output.dir debugDirectory) ⟨true, false⟩).run d
        config disk = .error (.invalid (linted d config).errorCount) ⟨linted d config, disk⟩ :=
      hrun.trans (if_pos herrors)
    simp only [generate, hfails, if_true]
  | false =>
    have hpasses : (Generate.pipeline (join config.output.dir debugDirectory) ⟨true, false⟩).run d
        config disk = .ok () ⟨passed d config, disk⟩ :=
      hrun.trans (if_neg (by simpa [linted] using herrors))
    simp only [generate, hpasses, ofContext_passed]
    rfl

/-- How a run that findings stop is told. -/
theorem message_invalid (errors : Nat) : Generate.Failure.message (.pipeline (.invalid errors)) =
    "Pipeline failed (run `apigen check` for details): Validation failed with " ++ toString errors ++
      " error(s)" := by
  have hstart : "Pipeline failed (run `apigen check` for details): Validation failed with " =
      "Pipeline failed (run `apigen check` for details): " ++ "Validation failed with " := by decide
  calc
    Generate.Failure.message (.pipeline (.invalid errors))
      = "Pipeline failed (run `apigen check` for details): " ++
          ("Validation failed with " ++ toString errors ++ " error(s)") := rfl
    _ = _ := by rw [hstart, String.append_assoc, String.append_assoc, String.append_assoc]

/-- A finding with a place is told with it behind an arrow. -/
theorem map_located {findings : List Diagnostic} (h : ∀ f ∈ findings, f.location.isSome = true) :
    findings.map Diagnostic.located =
      (findings.map fun f => (f.message, f.location.getD "")).map
        fun (message, place) => message ++ "\n  --> " ++ place := by
  rw [List.map_map]
  refine List.map_congr_left fun f hf => ?_
  obtain ⟨place, hplace⟩ := Option.isSome_iff_exists.mp (h f hf)
  simp [Diagnostic.located, hplace, String.append_assoc]

/-- A check predicts a dry run. The run succeeds when the check finds the document valid, with the
summary of the check and with its warnings, each without its place; else it fails with the number of
errors that the check lists, and the check has no summary. Either way the disk stays as it is. -/
theorem check_predicts_dryRun (d : Document) (config : Config) (spec now : String) (disk : Disk) :
    match generate d config ⟨true, false⟩ now disk with
    | .ok r after => after = disk ∧ (check d config spec).isValid = true ∧
        (check d config spec).summary = some r.summary ∧
        ∃ findings : List (String × String), r.warnings = findings.map Prod.fst ∧
          (check d config spec).warnings =
            findings.map fun (message, place) => message ++ "\n  --> " ++ place
    | .error failure after => after = disk ∧ (check d config spec).isValid = false ∧
        (check d config spec).summary = none ∧
        failure.message = "Pipeline failed (run `apigen check` for details): Validation failed with " ++
          toString (check d config spec).errors.length ++ " error(s)" := by
  rw [generate_dryRun]
  cases herrors : (linted d config).hasErrors with
  | true =>
    have hchecked : checked (.new d config) = linted d config := by rw [checked_eq, if_pos herrors]
    have hsome : ((linted d config).withSeverity .error).isEmpty = false := by
      simpa [hasErrors_eq] using herrors
    refine ⟨rfl, ?_, ?_, ?_⟩
    · simpa [check, CheckReport.isValid, hchecked] using hsome
    · rw [check, hchecked]
      rfl
    · have hcount : (check d config spec).errors.length = (linted d config).errorCount := by
        rw [check, hchecked]
        exact List.length_map _
      rw [hcount]
      exact message_invalid _
  | false =>
    have hchecked : checked (.new d config) = passed d config := by
      rw [checked_eq, if_neg (by simp [herrors])]
    have hnone : ((linted d config).withSeverity .error).isEmpty = true := by
      simpa [hasErrors_eq] using herrors
    have hwarnings : (passed d config).warnings = (linted d config).warnings :=
      withSeverity_passed d config (by decide)
    have hlocated : ∀ f ∈ (linted d config).warnings, f.location.isSome = true :=
      fun f hf => Lint.location_isSome (List.mem_filter.mp hf).1
    -- The check takes its warnings behind lowering, whose notes have no part in them.
    refine ⟨rfl, ?_, ?_, (linted d config).warnings.map fun f => (f.message, f.location.getD ""),
      ?_, ?_⟩
    · rw [check, hchecked, CheckReport.isValid, withSeverity_passed d config (by decide)]
      simpa using hnone
    · rw [check, hchecked]
      rfl
    · simp [hwarnings]
    · rw [← map_located hlocated, ← hwarnings, check, hchecked]
      rfl

end TypedClient
