import TypedClient.CommandLine.Execute
import TypedClient.Proofs.DryRuns
import TypedClient.Proofs.ReferenceClosure
import TypedClient.Proofs.RepeatedWrites

/-! What a generation does to the disk. Findings that are errors stop it before the hook behind a
phase has run, so that nothing is written, with snapshots or without. A run that passes leaves its
snapshots, if it is to leave any, and then writes its files. Each of these writes can be repeated, and
so can the whole run, once its documents do not tell the time. -/

namespace TypedClient

open Files Generate Pipeline

namespace Pipeline

/-! ### Steps that leave snapshots -/

/-- A step that takes one context to another and does to the disk what an operation does. Where the
operation fails, so does the step. -/
def Acts (x : Step Disk Unit) (c : Context) (op : DiskM Unit) (c' : Context) : Prop :=
  ∀ disk, match op disk with
    | .ok () after => x ⟨c, disk⟩ = .ok () ⟨c', after⟩
    | .error failure after => ∃ reached, x ⟨c, disk⟩ = .error (.disk failure) ⟨reached, after⟩

section Acts

variable {c c' c'' : Context} {x y : Step Disk Unit} {op op' : DiskM Unit}

theorem acts_ofDisk (op : DiskM Unit) (c : Context) : Acts (Step.ofDisk op) c op c := by
  intro disk
  unfold Step.ofDisk
  cases op disk with
  | ok _ after => rfl
  | error failure after => exact ⟨c, rfl⟩

theorem acts_pure (h : ∀ disk, x ⟨c, disk⟩ = .ok () ⟨c', disk⟩) : Acts x c (pure ()) c' := h

theorem Acts.bind (hx : Acts x c op c') (hy : Acts y c' op' c'') :
    Acts (x >>= fun _ => y) c (op >>= fun _ => op') c'' := by
  intro disk
  have hfirst := hx disk
  cases hop : op disk with
  | error failure m =>
    have hfails : (op >>= fun _ => op') disk = .error failure m := bind_of_error hop
    rw [hop] at hfirst
    obtain ⟨reached, hfirst⟩ := hfirst
    rw [hfails]
    exact ⟨reached, bind_of_error hfirst⟩
  | ok _ m =>
    have hpasses : (op >>= fun _ => op') disk = op' m := bind_of_ok hop
    rw [hop] at hfirst
    rw [hpasses, bind_of_ok hfirst]
    exact hy m

end Acts

/-- The snapshot of a context behind a phase. -/
def leaveSnapshot (dir phase : String) (c : Context) : DiskM Unit :=
  writeInto dir (snapshotPath dir phase) (snapshot phase c).pretty

variable (d : Document) (config : Config)

/-- The snapshots of a run that passes. -/
def leaveSnapshots (dir : String) : DiskM Unit := do
  leaveSnapshot dir "validate" (linted d config)
  leaveSnapshot dir "lower" (lower (linted d config))
  leaveSnapshot dir "analyze" (passed d config)

/-- The hook stands behind the phase only. -/
theorem runPhase_snapshots (dir : String) (phase : Phase Disk) :
    runPhase [snapshots dir] phase = phase.run >>= fun _ => (snapshots dir).after phase.name := by
  have hhook : ((snapshots dir).after phase.name >>= fun _ => pure ()) =
      (snapshots dir).after phase.name := bind_pure _
  have hbefore : runPhase [snapshots dir] phase =
      phase.run >>= fun _ => (snapshots dir).after phase.name >>= fun _ => pure () := rfl
  rw [hbefore, hhook]

theorem acts_after (dir phase : String) (c : Context) :
    Acts ((snapshots dir).after phase) c (leaveSnapshot dir phase c) c := by
  intro disk
  have hafter : (snapshots dir).after phase ⟨c, disk⟩ =
      Step.ofDisk (leaveSnapshot dir phase c) ⟨c, disk⟩ := rfl
  rw [hafter]
  exact acts_ofDisk (leaveSnapshot dir phase c) c disk

theorem acts_runPhase (dir : String) {phase : Phase Disk} {c c' : Context}
    (h : ∀ disk, phase.run ⟨c, disk⟩ = .ok () ⟨c', disk⟩) :
    Acts (runPhase [snapshots dir] phase) c (leaveSnapshot dir phase.name c') c' := by
  rw [runPhase_snapshots]
  exact (acts_pure h).bind (acts_after dir phase.name c')

theorem acts_snapshots (dir : String) (h : (linted d config).hasErrors = false) :
    Acts (steps { Pipeline.default with plugins := [snapshots dir] }) (.new d config)
      (leaveSnapshots d config dir) (passed d config) := by
  have hvalidate : ∀ disk : Disk, (Phase.validate Lint.all).run ⟨.new d config, disk⟩ =
      .ok () ⟨linted d config, disk⟩ := by
    intro disk
    rw [validate_run, if_neg]
    · rfl
    · simpa [linted] using h
  have hlower : ∀ disk : Disk, Phase.lower.run ⟨linted d config, disk⟩ =
      .ok () ⟨lower (linted d config), disk⟩ := fun _ => rfl
  have hanalyze : ∀ disk : Disk, Phase.analyze.run ⟨lower (linted d config), disk⟩ =
      .ok () ⟨passed d config, disk⟩ := fun _ => rfl
  have hsteps : steps { Pipeline.default with plugins := [snapshots dir] } =
      (runPhase [snapshots dir] (.validate Lint.all) >>= fun _ =>
        runPhase [snapshots dir] .lower >>= fun _ => runPhase [snapshots dir] .analyze) := by
    have hlast : (runPhase [snapshots dir] .analyze >>= fun _ => pure ()) =
        runPhase [snapshots dir] .analyze := bind_pure _
    rw [← hlast]
    rfl
  rw [hsteps]
  exact (acts_runPhase dir hvalidate).bind
    ((acts_runPhase dir hlower).bind (acts_runPhase dir hanalyze))

/-- Findings that are errors stop the first phase, and with it its hook. -/
theorem snapshots_of_errors (dir : String) (h : (linted d config).hasErrors = true) (disk : Disk) :
    steps { Pipeline.default with plugins := [snapshots dir] } ⟨.new d config, disk⟩ =
      .error (.invalid (linted d config).errorCount) ⟨linted d config, disk⟩ := by
  have hvalidate : (Phase.validate Lint.all).run ⟨.new d config, disk⟩ =
      .error (.invalid (linted d config).errorCount) ⟨linted d config, disk⟩ :=
    (validate_run Lint.all (.new d config) disk).trans (if_pos h)
  have hphase : runPhase [snapshots dir] (.validate Lint.all) ⟨.new d config, disk⟩ =
      .error (.invalid (linted d config).errorCount) ⟨linted d config, disk⟩ := by
    rw [runPhase_snapshots]
    exact bind_of_error hvalidate
  exact bind_of_error hphase

end Pipeline

namespace Generate

variable (d : Document) (config : Config) (options : Options) (debug now : String) (disk : Disk)

/-! ### Runs -/

/-- What a run that passes does to the disk before files are generated. -/
def inspect : DiskM Unit := if options.visualize then leaveSnapshots d config debug else pure ()

theorem acts_run (h : (linted d config).hasErrors = false) :
    Acts (Generate.pipeline debug options).steps (.new d config) (inspect d config options debug)
      (passed d config) := by
  obtain ⟨dryRun, visualize⟩ := options
  cases visualize with
  | true => exact acts_snapshots d config debug h
  | false =>
    have hrun : ∀ disk : Disk, Pipeline.default.steps ⟨.new d config, disk⟩ =
        .ok () ⟨passed d config, disk⟩ := by
      intro disk
      exact (run_default d config disk).trans (if_neg (by simpa [linted] using h))
    exact acts_pure hrun

theorem run_of_errors (h : (linted d config).hasErrors = true) :
    (Generate.pipeline debug options).run d config disk =
      .error (.invalid (linted d config).errorCount) ⟨linted d config, disk⟩ := by
  obtain ⟨dryRun, visualize⟩ := options
  cases visualize with
  | true => exact snapshots_of_errors d config debug h disk
  | false => exact (run_default d config disk).trans (if_pos h)

/-- Findings that are errors leave the disk as it is. -/
theorem generate_of_errors (h : (linted d config).hasErrors = true) :
    generate d config options now disk =
      .error (.pipeline (.invalid (linted d config).errorCount)) disk := by
  simp only [generate, run_of_errors d config options _ disk h]

/-- The report of a run that passes. -/
def report (result : GenerationResult) : GenerateReport :=
  { summary := ⟨(d.generator config now).title, (d.generator config now).api.info.version,
      (d.generator config now).counts⟩
    warnings := (passed d config).warnings.map (·.message)
    result := result }

/-- A run that passes leaves its snapshots and then shows or writes its files. -/
theorem generate_of_passed (h : (linted d config).hasErrors = false) :
    generate d config options now =
      (inspect d config options (join config.output.dir debugDirectory)).adaptExcept
          (fun failure => .pipeline (.disk failure)) >>= fun _ =>
        produce (d.generator config now) config.output.dir (join config.output.dir debugDirectory)
          options >>= fun result => pure (report d config now result) := by
  funext disk
  have hrun := acts_run d config options (join config.output.dir debugDirectory) h disk
  cases hop : inspect d config options (join config.output.dir debugDirectory) disk with
  | error failure m =>
    rw [hop] at hrun
    obtain ⟨reached, hrun⟩ := hrun
    simp only [generate, Pipeline.run, hrun, bind, EStateM.bind, EStateM.adaptExcept, hop]
  | ok _ m =>
    rw [hop] at hrun
    simp only [generate, Pipeline.run, hrun, ofContext_passed, bind, EStateM.bind,
      EStateM.adaptExcept, hop]
    cases produce (d.generator config now) config.output.dir
        (join config.output.dir debugDirectory) options m with
    | error failure after => rfl
    | ok result after => rfl

end Generate

/-! ### Runs that are rejected -/

namespace CommandLine

/-- What stops a generation before it writes, with the reason that is told: settings or a document
that cannot be used, or an error among the findings of the lints. -/
inductive GenerateOptions.Rejected (o : GenerateOptions) (d : Disk) : String → Prop
  | settings {e} (h : o.input.load d = .error e) : o.Rejected d e.message
  | document {config e} (hconfig : o.input.load d = .ok config)
    (h : d.loadDocument (o.adjust config).input.spec = .error e) : o.Rejected d e.message
  | findings {config document f} (h : o.load d = .ok (config, document))
    (hfound : f ∈ Lint.runAll Lint.all config document) (herror : f.severity = .error) :
    o.Rejected d (Generate.Failure.message (.pipeline (.invalid
      ((Lint.runAll Lint.all config document).filter (·.severity == .error)).length)))

variable {o : GenerateOptions} {d : Disk} {reason : String}

theorem generateAt_of_rejected (h : o.Rejected d reason) (now : String) :
    generateAt o now d = (.failed reason, d) := by
  cases h with
  | @settings e h =>
    have hload : o.load d = .error e := by
      simp only [GenerateOptions.load, h]
      rfl
    simp only [generateAt, hload]
  | @document config e hconfig h =>
    have hload : o.load d = .error e := by
      simp only [GenerateOptions.load, hconfig, bind, Except.bind, h]
    simp only [generateAt, hload]
  | @findings config document f h hfound herror =>
    have herrors : (linted document config).hasErrors = true :=
      List.any_eq_true.mpr ⟨f, hfound, by simp [herror]⟩
    simp only [generateAt, h, generate_of_errors _ _ _ _ _ herrors]
    rfl

theorem generateAt_dryRun (hdry : o.dryRun = true) (hvisualize : o.visualize = false)
    (now : String) : (generateAt o now d).2 = d := by
  unfold generateAt
  cases o.load d with
  | error e => rfl
  | ok loaded =>
    obtain ⟨config, document⟩ := loaded
    simp only [hdry, hvisualize, generate_dryRun]
    cases (linted document config).hasErrors <;> rfl

end CommandLine

open CommandLine in
/-- A generation that is rejected ends in an error with the reason and leaves the disk as it was,
whatever its options. A dry run without snapshots leaves the disk as it was however it ends. -/
theorem execute_generate_leaves_disk {words : List String} {o : GenerateOptions}
    (hwords : Command.ofArguments words = .ok (.generate o)) (now : String) (d : Disk) :
    (∀ reason, o.Rejected d reason → execute words now d = (.failed reason, d)) ∧
      (o.dryRun = true → o.visualize = false → (execute words now d).2 = d) := by
  have hrun : execute words now d = generateAt o now d := by
    simp only [execute, hwords, Command.execute]
  rw [hrun]
  exact ⟨fun reason h => generateAt_of_rejected h now,
    fun hdry hvisualize => generateAt_dryRun hdry hvisualize now⟩

/-- A disk with settings that ask for unique identifiers and a document that repeats one. -/
def repeatedDisk : Disk :=
  ⟨[(["work"], .directory),
    (["work", "apigen.toml"], .file (.text "[generation]\nunique_operation_ids = true\n")),
    (["work", "swagger.json"], .file (.text r#"{"paths": {
      "/a": {"get": {"operationId": "list"}},
      "/b": {"get": {"operationId": "list"}}}}"#))],
    ["work"]⟩

open CommandLine in
theorem repeatedDisk_left : ∃ o reason,
    Command.ofArguments ["generate", "--visualize"] = .ok (.generate o) ∧
      o.Rejected repeatedDisk reason ∧
      execute ["generate", "--visualize"] "" repeatedDisk = (.failed reason, repeatedDisk) := by
  let o : GenerateOptions := ⟨⟨"apigen.toml", none⟩, none, none, false, false, true⟩
  have hwords : Command.ofArguments ["generate", "--visualize"] = .ok (.generate o) := rfl
  have hfound : ((o.load repeatedDisk).toOption.any fun loaded =>
      (Lint.runAll Lint.all loaded.1 loaded.2).any (·.severity == .error)) = true := by decide +kernel
  cases hload : o.load repeatedDisk with
  | error e =>
    rw [hload] at hfound
    nomatch hfound
  | ok loaded =>
    rw [hload] at hfound
    obtain ⟨f, hf, herror⟩ := List.any_eq_true.mp hfound
    have hrejected := GenerateOptions.Rejected.findings hload hf (by simpa using herror)
    exact ⟨o, _, hwords, hrejected,
      (execute_generate_leaves_disk hwords "" repeatedDisk).1 _ hrejected⟩

namespace Generate

variable (d : Document) (config : Config) (options : Options) (debug now : String)

/-! ### Runs again -/

theorem repeatable_leaveSnapshot (dir phase : String) (c : Context) :
    Repeatable (leaveSnapshot dir phase c) := by
  intro disk _ after h
  exact (writes_of_prepares (prepares_makeDirectories dir (.create dir)) h).settles

theorem repeatable_inspect : Repeatable (inspect d config options debug) := by
  unfold inspect
  split
  · exact .bind (repeatable_leaveSnapshot ..) fun _ =>
      .bind (repeatable_leaveSnapshot ..) fun _ => repeatable_leaveSnapshot ..
  · exact .pure ()

theorem repeatable_writeInto (dir : String) (outcome : Generator.Outcome) (file : GeneratedFile) :
    Repeatable (Generator.writeInto dir outcome file) := by
  refine (repeatable_writeFile (join dir file.path) file.content).of_ok_iff
    (fun done => if done = .written then { outcome with written := outcome.written ++ [file.path] }
      else { outcome with skipped := outcome.skipped ++ [file.path] }) ?_
  intro disk r after
  unfold Generator.writeInto
  cases writeFile .always (join dir file.path) file.content disk with
  | error failure m => simp
  | ok done m => cases done <;> simp [and_comm]

theorem repeatable_produce (g : Generator) (dir : String) :
    Repeatable (produce g dir debug options) := by
  have hfiles : Repeatable (g.generate dir) := .foldlM (repeatable_writeInto dir) _ _
  obtain ⟨dryRun, visualize⟩ := options
  cases dryRun with
  | true => exact .pure (GenerationResult.preview g.files)
  | false =>
    refine hfiles.of_ok_iff
      (fun outcome => .written outcome dir (if visualize then some debug else none)) ?_
    intro disk r after
    unfold produce
    cases g.generate dir disk with
    | error failure m => simp
    | ok outcome m => simp [and_comm]

/-- Wherever a generation succeeds, it can be run again. -/
theorem repeatable_generate : Repeatable (generate d config options now) := by
  cases herrors : (linted d config).hasErrors with
  | true =>
    intro disk r after h
    nomatch h.symm.trans (generate_of_errors d config options now disk herrors)
  | false =>
    rw [generate_of_passed d config options now herrors]
    exact ((repeatable_inspect d config options _).adaptExcept _).bind fun _ =>
      (repeatable_produce ..).bind fun result => .pure (report d config now result)

/-- Without a time in its documents, a generation does not depend on when it runs. -/
theorem generate_congr (hstamp : config.generation.timestamp = false) (later : String) :
    generate d config options later = generate d config options now := by
  have hgenerator : d.generator config later = d.generator config now := by
    simp [Document.generator, hstamp]
  funext disk
  cases herrors : (linted d config).hasErrors with
  | true => rw [generate_of_errors _ _ _ _ _ herrors, generate_of_errors _ _ _ _ _ herrors]
  | false =>
    rw [generate_of_passed _ _ _ _ herrors, generate_of_passed _ _ _ _ herrors]
    simp only [report, hgenerator]

end Generate

/-- A generation that succeeds, run again on what it left, whenever that is, succeeds with the same
report and leaves every file and directory as it is, when its documents do not tell the time. -/
theorem generate_again {d : Document} {config : Config} {options : Options} {now : String}
    {disk after : Disk} {r : GenerateReport} (hstamp : config.generation.timestamp = false)
    (h : generate d config options now disk = .ok r after) (later : String) :
    generate d config options later after = .ok r after := by
  rw [generate_congr d config options now hstamp later]
  exact (repeatable_generate d config options now).again h

/-- Settings under which documents do not tell the time. -/
def timeless : Config :=
  { Config.default with generation := { Config.Generation.default with timestamp := false } }

theorem petDocument_generate_again : ∃ r after,
    generate (petDocument "Pet") timeless ⟨false, true⟩ "then" .empty = .ok r after ∧
      generate (petDocument "Pet") timeless ⟨false, true⟩ "now" after = .ok r after := by
  have hok : succeedsWith (fun _ _ => true)
      (generate (petDocument "Pet") timeless ⟨false, true⟩ "then") .empty = true := by decide +kernel
  obtain ⟨r, after, h, _⟩ := exists_of_succeedsWith hok
  exact ⟨r, after, h, generate_again rfl h "now"⟩

end TypedClient
