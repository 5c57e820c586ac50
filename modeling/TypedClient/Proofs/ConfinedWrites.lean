import TypedClient.Proofs.GenerationRuns
import TypedClient.Proofs.PathPrefixes

/-! What a generation leaves alone, wherever it stops. Each step on the disk makes changes at the paths
that it is given and at nothing else: a file is written where a path leads, and directories are made
on the way along a path. Such steps can be put one behind the other, and a step that fails has made
some of its changes. So nothing that is there goes away, and all that is new is accounted for by the
paths of the run. -/

namespace TypedClient

open Files Generate Pipeline

namespace Files

/-- The state in which a step ends, also where it fails. -/
def reached {ε σ α : Type} : EStateM.Result ε σ α → σ
  | .ok _ s => s
  | .error _ s => s

namespace Disk

/-- The address is passed on the way along a path, as the path is written, or is where it leads. -/
def OnWay (d : Disk) (path : String) (a : Address) : Prop :=
  ∃ front, front <+: parts path ∧ a = front.foldl advance (d.origin path)

/-- Changes that are made for the sake of some paths. -/
def Allows (d : Disk) (paths : List String) : Change → Prop
  | (a, .file _) => ∃ path ∈ paths, a = d.place path
  | (a, .directory) => ∃ path ∈ paths, d.OnWay path a

/-- `e` comes out of `d` by changes for the sake of the paths. -/
def Confined (d : Disk) (paths : List String) (e : Disk) : Prop :=
  ∃ changes, d.Yields changes e ∧ ∀ change ∈ changes, d.Allows paths change

variable {d e f : Disk} {path front : String} {paths : List String} {a : Address}

theorem onWay_place (d : Disk) (path : String) : d.OnWay path (d.place path) :=
  ⟨parts path, List.prefix_rfl, rfl⟩

theorem OnWay.of_isFront (h : d.OnWay front a) (hfront : IsFront front path) : d.OnWay path a := by
  obtain ⟨names, hnames, rfl⟩ := h
  have horigin : d.origin front = d.origin path := by rw [origin, origin, hfront.start]
  exact ⟨names, hnames.trans hfront.parts, by rw [horigin]⟩

theorem allows_congr (h : e.current = d.current) (paths : List String) (change : Change) :
    e.Allows paths change ↔ d.Allows paths change := by
  have horigin : ∀ path, e.origin path = d.origin path := fun path => by rw [origin, origin, h]
  obtain ⟨a, node⟩ := change
  cases node with
  | directory => simp only [Allows, OnWay, horigin]
  | file c => simp only [Allows, place_congr h]

namespace Confined

theorem refl (d : Disk) (paths : List String) : d.Confined paths d :=
  ⟨[], .start, fun _ h => nomatch h⟩

theorem trans (h : d.Confined paths e) (k : e.Confined paths f) : d.Confined paths f := by
  obtain ⟨before, hbefore, hallowed⟩ := h
  obtain ⟨after, hafter, hallowed'⟩ := k
  refine ⟨before ++ after, hbefore.trans hafter, fun change hmem => ?_⟩
  rcases List.mem_append.mp hmem with hmem | hmem
  · exact hallowed change hmem
  · exact (allows_congr hbefore.le.current paths change).mp (hallowed' change hmem)

theorem directory (hpath : path ∈ paths) (hway : d.OnWay path a) (hfree : d.find a = none) :
    d.Confined paths (d.set a .directory) := by
  refine ⟨_, .directory .start hfree, fun change hmem => ?_⟩
  obtain rfl : change = (a, .directory) := by simpa using hmem
  exact ⟨path, hpath, hway⟩

theorem file (hpath : path ∈ paths) (hfree : d.find (d.place path) ≠ some .directory) (c : Content) :
    d.Confined paths (d.set (d.place path) (.file c)) := by
  refine ⟨_, .file .start hfree c, fun change hmem => ?_⟩
  obtain rfl : change = (d.place path, .file c) := by simpa using hmem
  exact ⟨path, hpath, rfl⟩

end Confined

/-! ### What is left -/

/-- What was there is there, as a directory or as a file. Files are new or changed only where one of
the paths leads, and directories are new only on the way along one of them. -/
structure KeepsTo (d : Disk) (paths : List String) (e : Disk) : Prop extends Extends d e where
  written : ∀ {a c}, e.find a = some (.file c) →
    d.find a = some (.file c) ∨ ∃ path ∈ paths, a = d.place path
  made : ∀ {a}, e.find a = some .directory →
    d.find a = some .directory ∨ ∃ path ∈ paths, d.OnWay path a

theorem Confined.keepsTo (h : d.Confined paths e) : d.KeepsTo paths e := by
  obtain ⟨changes, hyields, hallowed⟩ := h
  have hnode : ∀ {a node}, e.find a = some node → d.find a = some node ∨ d.Allows paths (a, node) := by
    intro a node ha
    rw [hyields.find a] at ha
    cases hlast : changes.reverse.lookup a with
    | none =>
      rw [hlast] at ha
      exact .inl ha
    | some last =>
      rw [hlast] at ha
      obtain rfl : last = node := Option.some.inj ha
      obtain ⟨front, back, hchanges, _⟩ := List.lookup_eq_some_iff.mp hlast
      exact .inr (hallowed _ (List.mem_reverse.mp (by simp [hchanges])))
  exact { hyields.le with written := hnode, made := hnode }

/-- A file at an address to which no path leads is left as it is. -/
theorem KeepsTo.find_file (h : d.KeepsTo paths e) {c : Content}
    (ha : d.find a = some (.file c)) (hne : ∀ path ∈ paths, a ≠ d.place path) :
    e.find a = some (.file c) := by
  obtain ⟨c', hafter⟩ := h.file ha
  rcases h.written hafter with hbefore | ⟨path, hpath, hplace⟩
  · rwa [← ha, hbefore]
  · exact absurd hplace (hne path hpath)

end Disk

/-! ### Operations -/

section Confines

variable {ε ε' α β : Type} {paths : List String}

/-- Wherever the operation starts and however it ends, it makes changes for the sake of the paths
only. -/
def Confines (paths : List String) (op : EStateM ε Disk α) : Prop :=
  ∀ d : Disk, d.Confined paths (reached (op d))

namespace Confines

theorem pure (r : α) : Confines paths (pure r : EStateM ε Disk α) := fun d => .refl d paths

/-- What the first step has done stays done where the second one fails. -/
theorem bind {x : EStateM ε Disk α} {f : α → EStateM ε Disk β} (hx : Confines paths x)
    (hf : ∀ a, Confines paths (f a)) : Confines paths (x >>= f) := by
  intro d
  have hfirst := hx d
  cases hrun : x d with
  | error failure m =>
    rw [hrun] at hfirst
    rwa [bind_of_error hrun]
  | ok a m =>
    rw [hrun] at hfirst
    rw [bind_of_ok hrun]
    exact hfirst.trans (hf a m)

/-- A step that ends on the same disks as another one. -/
theorem of_reached {op : EStateM ε Disk α} {op' : EStateM ε' Disk β} (hop : Confines paths op)
    (h : ∀ d, reached (op' d) = reached (op d)) : Confines paths op' := fun d => h d ▸ hop d

theorem adaptExcept {op : EStateM ε Disk α} (hop : Confines paths op) (f : ε → ε') :
    Confines paths (op.adaptExcept f) := by
  refine hop.of_reached fun d => ?_
  unfold EStateM.adaptExcept
  cases op d <;> rfl

theorem named {op : DiskOp} (hop : Confines paths op) (failure : Cause → Failure) :
    Confines paths (op.named failure) := by
  refine hop.of_reached fun d => ?_
  unfold DiskOp.named
  cases op d <;> rfl

theorem foldlM {step : β → α → EStateM ε Disk β} {l : List α}
    (hstep : ∀ a ∈ l, ∀ b, Confines paths (step b a)) (b : β) : Confines paths (l.foldlM step b) := by
  induction l generalizing b with
  | nil => exact pure b
  | cons a rest ih =>
    rw [List.foldlM_cons]
    exact bind (hstep a (List.mem_cons_self ..) b)
      fun b' => ih (fun a' ha' => hstep a' (List.mem_cons_of_mem _ ha')) b'

/-- An operation that fails without a change is confined as far as it succeeds. -/
theorem ofExcept {f : Disk → Except Cause Disk}
    (h : ∀ {d e}, DiskOp.ofExcept f d = .ok () e → d.Confined paths e) :
    Confines paths (DiskOp.ofExcept f) := by
  intro d
  cases hf : f d with
  | ok e =>
    have hrun : DiskOp.ofExcept f d = .ok () e := ofExcept_eq_ok.mpr hf
    rw [hrun]
    exact h hrun
  | error cause =>
    have hrun : DiskOp.ofExcept f d = .error cause d := by
      rw [DiskOp.ofExcept, get_bind, hf]
      rfl
    rw [hrun]
    exact .refl d paths

end Confines

/-! ### Directories and files for a path -/

variable {path front : String}

theorem confines_makeDirectory (hpath : path ∈ paths) (hfront : IsFront front path) :
    Confines paths (makeDirectory front) := by
  refine .ofExcept fun {d e} h => ?_
  obtain ⟨t, hwalk, _, hfree, rfl⟩ := makeDirectory_eq_ok_iff.mp h
  have hway : d.OnWay path t.address :=
    Disk.address_eq_place hwalk ▸ (d.onWay_place front).of_isFront hfront
  exact .directory hpath hway hfree

theorem confines_ensureDirectory (hpath : path ∈ paths) (hfront : IsFront front path) :
    Confines paths (ensureDirectory front) := by
  intro d
  rw [ensureDirectory, get_bind]
  cases d.walk front with
  | error cause => exact .refl d paths
  | ok t =>
    dsimp only
    rcases d.find t.address with _ | _ | _
    · exact confines_makeDirectory hpath hfront d
    · exact .refl d paths
    · exact .refl d paths

theorem confines_ensureAll (hpath : path ∈ paths) {above : List String} (hfront : IsFront front path)
    (habove : ∀ dir ∈ above, IsFront dir path) : Confines paths (ensureAll front above) := by
  induction above generalizing front with
  | nil => exact confines_ensureDirectory hpath hfront
  | cons dir rest ih =>
    have hlast := confines_ensureDirectory hpath hfront
    have hrest := ih (habove dir (List.mem_cons_self ..))
      fun dir' hmem => habove dir' (List.mem_cons_of_mem _ hmem)
    intro d
    by_cases hmissing : d.walk front = .error .notFound
    · rw [ensureAll_cons_of_notFound hmissing]
      exact hrest.bind (fun _ => hlast) d
    · rw [ensureAll_cons_of_ne hmissing]
      exact hlast d

theorem confines_makeDirectories (hpath : path ∈ paths) (hfront : IsFront front path) :
    Confines paths (makeDirectories front) := by
  unfold makeDirectories
  split
  · exact .pure ()
  · exact confines_ensureAll hpath hfront fun dir hdir => (isFront_of_mem_ancestors hdir).trans hfront

theorem confines_overwrite (hpath : path ∈ paths) (c : Content) :
    Confines paths (overwrite path c) := by
  refine .ofExcept fun {d e} h => ?_
  obtain ⟨_, _, hfree, rfl⟩ := overwrite_eq_ok_iff.mp h
  exact .file hpath hfree c

theorem confines_prepare (hpath : path ∈ paths) : Confines paths (prepare path) := by
  unfold prepare
  split
  · exact .pure ()
  · next dir hparent =>
    split
    · exact .pure ()
    · next hnamed =>
      have hfront := (isFront_of_parent? hparent).resolve_left hnamed
      exact (confines_makeDirectories hpath hfront).named _

theorem confines_writeFile (rule : Rule) (hpath : path ∈ paths) (text : String) :
    Confines paths (writeFile rule path text) := by
  have htext : Confines paths (writeText path text) := by
    rw [writeText_eq]
    exact (confines_prepare hpath).bind fun _ => (confines_overwrite hpath _).named _
  have hwritten : Confines paths (writeText path text >>= fun _ => Pure.pure Written.written) :=
    htext.bind fun _ => .pure Written.written
  intro d
  cases rule with
  | always => exact hwritten d
  | ifMissing =>
    cases hthere : d.contains path with
    | true =>
      have hskipped : writeFile .ifMissing path text d = .ok .skipped d := by
        rw [writeFile, get_bind, hthere]
        rfl
      rw [hskipped]
      exact .refl d paths
    | false =>
      have hwrite : writeFile .ifMissing path text d =
          (writeText path text >>= fun _ => Pure.pure Written.written) d := by
        rw [writeFile, get_bind, hthere]
        rfl
      rw [hwrite]
      exact hwritten d

end Confines

/-! ### Joined paths -/

theorem getLast?_join {path : String} (base : String) (hpath : path.isEmpty = false) :
    (join base path).toList.getLast? = path.toList.getLast? := by
  have hchars : path.toList ≠ [] := by simpa using hpath
  unfold join
  split
  · rfl
  · split
    · rw [String.toList_append, List.getLast?_append_of_ne_nil _ hchars]
    · rw [String.toList_append, List.getLast?_append_of_ne_nil _ hchars]

theorem isEmpty_join {path : String} (base : String) (hpath : path.isEmpty = false) :
    (join base path).isEmpty = false := by
  have hchars : path.toList ≠ [] := by simpa using hpath
  have hlast := getLast?_join base hpath
  cases hjoined : (join base path).isEmpty with
  | false => rfl
  | true =>
    rw [String.isEmpty_iff.mp hjoined] at hlast
    exact absurd (List.getLast?_eq_none_iff.mp hlast.symm) hchars

end Files

/-! ### Generations -/

namespace Generate

/-- The paths of the files that a generation may write: its outputs below the output directory, unless
it only shows them, and the snapshots of the phases, if they are wanted. -/
def touched (config : Config) (options : Options) : List String :=
  (if options.dryRun then []
    else [config.output.types, config.output.client, config.output.service].map
      (join config.output.dir)) ++
  if options.visualize then
    ["validate", "lower", "analyze"].map (snapshotPath (join config.output.dir debugDirectory))
  else []

variable (d : Document) (config : Config) (options : Options) (now : String) {paths : List String}

theorem confines_leaveSnapshot {dir phase : String} (c : Context) (hdir : dir.isEmpty = false)
    (hphase : isAbsolute (phase ++ ".json") = false) (hpath : snapshotPath dir phase ∈ paths) :
    Confines paths (leaveSnapshot dir phase c) :=
  ((confines_makeDirectories hpath (isFront_join hdir hphase)).named _).bind fun _ =>
    (confines_overwrite hpath _).named _

theorem confines_inspect : Confines (touched config options)
    (inspect d config options (join config.output.dir debugDirectory)) := by
  have hdir : (join config.output.dir debugDirectory).isEmpty = false := isEmpty_join _ rfl
  unfold inspect
  split
  · next hvisualize =>
    have hpath : ∀ phase ∈ ["validate", "lower", "analyze"],
        snapshotPath (join config.output.dir debugDirectory) phase ∈ touched config options := by
      intro phase hphase
      rw [touched, if_pos hvisualize]
      exact List.mem_append_right _ (List.mem_map_of_mem hphase)
    exact (confines_leaveSnapshot _ hdir rfl (hpath "validate" (by simp))).bind fun _ =>
      (confines_leaveSnapshot _ hdir rfl (hpath "lower" (by simp))).bind fun _ =>
        confines_leaveSnapshot _ hdir rfl (hpath "analyze" (by simp))
  · exact .pure ()

theorem confines_writeInto {dir : String} {file : GeneratedFile} (hpath : join dir file.path ∈ paths)
    (outcome : Generator.Outcome) : Confines paths (Generator.writeInto dir outcome file) := by
  refine (confines_writeFile .always hpath file.content).of_reached fun disk => ?_
  unfold Generator.writeInto
  cases writeFile .always (join dir file.path) file.content disk with
  | error failure m => rfl
  | ok done m => cases done <;> rfl

theorem confines_produce (debug : String) : Confines (touched config options)
    (produce (d.generator config now) config.output.dir debug options) := by
  cases hdry : options.dryRun with
  | true =>
    intro disk
    rw [produce, hdry, if_pos rfl]
    exact .refl disk _
  | false =>
    have hpath : ∀ file ∈ (d.generator config now).files,
        join config.output.dir file.path ∈ touched config options := by
      intro file hfile
      have hmem : file.path ∈ [config.output.types, config.output.client, config.output.service] :=
        List.mem_map_of_mem (f := (·.path)) hfile
      rw [touched, hdry]
      exact List.mem_append_left _ (List.mem_map_of_mem hmem)
    have hfiles : Confines (touched config options)
        ((d.generator config now).generate config.output.dir) :=
      .foldlM (fun file hfile => confines_writeInto (hpath file hfile)) _
    refine hfiles.of_reached fun disk => ?_
    rw [produce, hdry, if_neg Bool.false_ne_true]
    cases (d.generator config now).generate config.output.dir disk <;> rfl

theorem confines_generate :
    Confines (touched config options) (TypedClient.generate d config options now) := by
  cases herrors : (linted d config).hasErrors with
  | true =>
    intro disk
    rw [generate_of_errors d config options now disk herrors]
    exact .refl disk _
  | false =>
    rw [generate_of_passed d config options now herrors]
    exact ((confines_inspect d config options).adaptExcept _).bind fun _ =>
      (confines_produce d config options now _).bind fun result => .pure (report d config now result)

end Generate

/-! ### Settings that are there -/

namespace CommandLine

/-- Settings that are there are left alone. -/
theorem initIn_of_exists {dir : String} {disk : Disk} {t : Disk.Target}
    (hwalk : disk.walk (join dir Config.fileName) = .ok t) (hthere : disk.find t.address ≠ none) :
    initIn dir disk = (.failed (join dir Config.fileName ++ " already exists"), disk) := by
  have hslashed : t.slashed = false := by
    obtain ⟨_, _, _, rfl⟩ := Disk.walk_eq_ok_iff.mp hwalk
    rw [Disk.target, getLast?_join dir rfl]
    rfl
  have hcontains : disk.contains (join dir Config.fileName) = true := by
    rw [Disk.contains, hwalk]
    dsimp only
    cases hfind : disk.find t.address with
    | none => exact absurd hfind hthere
    | some node => cases node <;> simp [hslashed]
  have hskipped : writeFile .ifMissing (join dir Config.fileName) Config.template disk =
      .ok .skipped disk := by
    rw [writeFile, get_bind, hcontains]
    rfl
  rw [initIn, hskipped]

end CommandLine

open CommandLine in
/-- However a generation ends, what was there is there, only the files of the run are new or changed,
and only directories on the way to them are new. Where the settings file leads to something already,
nothing is changed by asking for one. A path that passes a missing directory leads nowhere. -/
theorem generate_keepsTo_and_init_keeps (disk : Disk) (now : String) :
    (∀ d config options, disk.KeepsTo (touched config options)
      (reached (generate d config options now disk))) ∧
    ∀ dir t, disk.walk (join dir Config.fileName) = .ok t → disk.find t.address ≠ none →
      (Command.init dir).execute now disk =
        (.failed (join dir Config.fileName ++ " already exists"), disk) :=
  ⟨fun d config options => (confines_generate d config options now disk).keepsTo,
    fun _ _ hwalk hthere => initIn_of_exists hwalk hthere⟩

/-- A disk with settings, on which a file stands where the client would need a directory. -/
def blockedDisk : Disk :=
  ⟨[(["work"], .directory), (["work", "apigen.toml"], .file (.text "")),
    (["work", "composables"], .file (.text "notes"))], ["work"]⟩

/-- The run fails behind its first file. -/
theorem blockedDisk_kept :
    succeedsWith (fun _ _ => true) (generate (petDocument "Pet") .default ⟨false, true⟩ "")
        blockedDisk = false ∧
    blockedDisk.KeepsTo (touched .default ⟨false, true⟩)
      (reached (generate (petDocument "Pet") .default ⟨false, true⟩ "" blockedDisk)) ∧
    (Command.init ".").execute "" blockedDisk =
      (.failed "./apigen.toml already exists", blockedDisk) := by
  obtain ⟨hgenerate, hinit⟩ := generate_keepsTo_and_init_keeps blockedDisk ""
  have hwalk : blockedDisk.walk (join "." Config.fileName) =
      .ok ⟨["work", "apigen.toml"], true, false⟩ := rfl
  exact ⟨by decide +kernel, hgenerate (petDocument "Pet") .default ⟨false, true⟩,
    hinit "." _ hwalk (by decide +kernel)⟩

-- A path that passes a missing directory leads nowhere until that directory is made, so that the
-- settings behind it do not count as being there.
example : ((Command.init "missing/..").execute ""
      ⟨[(["work"], .directory), (["work", "apigen.toml"], .file (.text ""))], ["work"]⟩).2.find
    ["work", "apigen.toml"] = some (.file (.text Config.template)) := rfl

end TypedClient
