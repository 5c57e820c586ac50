import TypedClient.Proofs.GenerationRuns
import TypedClient.Proofs.Layout

/-! Which files a generation leaves. The files are written one after the other, each where its path
leads, and what is written at a place stays until another file is written at the same place. So each
path can be read back as it was previewed exactly when the paths lead to different places. Settings
are refused when two paths are the same step by step; paths that part and meet again pass. -/

namespace TypedClient

open Code Files Generate TypeScript

namespace Files

/-! ### One file -/

section Writes

variable {ε α : Type} {op : EStateM ε Disk α} {r : α} {path : String} {c : Content} {d e : Disk}

theorem Writes.le (h : Writes op r path c d e) : d ≤ e := by
  obtain ⟨m, hopens, hfree, rfl⟩ := h.made
  exact hopens.le.trans (Disk.le_set_file hfree c)

/-- The content is where the path leads. -/
theorem Writes.find_place (h : Writes op r path c d e) : e.find (d.place path) = some (.file c) := by
  obtain ⟨m, hopens, hfree, rfl⟩ := h.made
  rw [Disk.find_set (Disk.ne_nil_of_find hfree), if_pos rfl]

/-- What is there elsewhere stays. -/
theorem Writes.find_other (h : Writes op r path c d e) {a : Address} {node : Node}
    (hne : a ≠ d.place path) (ha : d.find a = some node) : e.find a = some node := by
  obtain ⟨m, hopens, hfree, rfl⟩ := h.made
  rw [Disk.find_set (Disk.ne_nil_of_find hfree), if_neg hne, hopens.find_eq_some ha]

end Writes

end Files

namespace Generator

variable {dir : String} {files : List GeneratedFile} {d m e : Disk}

/-- Where a file below a directory goes. -/
def placeOf (d : Disk) (dir : String) (f : GeneratedFile) : Address := d.place (join dir f.path)

theorem placeOf_congr (h : e.current = d.current) (f : GeneratedFile) :
    placeOf e dir f = placeOf d dir f := Disk.place_congr h _

/-! ### All files -/

/-- What is there when files were written one after the other: all that was there, and the content of
each file, unless a later one took its place. -/
structure Wrote (dir : String) (files : List GeneratedFile) (d e : Disk) : Prop where
  le : d ≤ e
  walk : ∀ f ∈ files, e.walk (join dir f.path) = .ok ⟨placeOf d dir f, true, false⟩
  others : ∀ {a node}, (∀ f ∈ files, a ≠ placeOf d dir f) → d.find a = some node →
    e.find a = some node
  last : ∀ {front f back}, files = front ++ f :: back →
    (∀ f' ∈ back, placeOf d dir f ≠ placeOf d dir f') →
      e.find (placeOf d dir f) = some (.file (.text f.content))

theorem wrote_nil (d : Disk) : Wrote dir [] d d where
  le := le_rfl
  walk := fun _ hf => nomatch hf
  others := fun _ ha => ha
  last := fun {front _ _} h => by cases front <;> nomatch h

/-- Writing a file keeps the files written after it as they are. -/
theorem Wrote.cons {ε α : Type} {op : EStateM ε Disk α} {r : α} {f : GeneratedFile}
    (h : Writes op r (join dir f.path) (.text f.content) d m) (k : Wrote dir files m e) :
    Wrote dir (f :: files) d e := by
  have hplace : ∀ g, placeOf m dir g = placeOf d dir g := fun g => placeOf_congr h.le.current g
  have hothers : ∀ {a node}, (∀ g ∈ files, a ≠ placeOf d dir g) → m.find a = some node →
      e.find a = some node :=
    fun hne ha => k.others (fun g hg => hplace g ▸ hne g hg) ha
  refine ⟨h.le.trans k.le, fun g hg => ?_, fun {a node} hne ha => ?_,
    fun {front g back} hfiles hne => ?_⟩
  · rcases List.mem_cons.mp hg with rfl | hg
    · exact Disk.walk_le k.le h.walk
    · rw [← hplace g]
      exact k.walk g hg
  · have hfirst := h.find_other (hne f (List.mem_cons_self ..)) ha
    exact hothers (fun g hg => hne g (List.mem_cons_of_mem _ hg)) hfirst
  · rcases front with _ | ⟨first, front⟩
    · obtain ⟨rfl, rfl⟩ := List.cons.inj hfiles
      exact hothers hne h.find_place
    · obtain ⟨rfl, rfl⟩ := List.cons.inj hfiles
      rw [← hplace g]
      refine k.last rfl fun g' hg' => ?_
      rw [hplace, hplace]
      exact hne g' hg'

theorem wrote_of_foldlM {outcome outcome' : Outcome}
    (h : files.foldlM (writeInto dir) outcome d = .ok outcome' e) : Wrote dir files d e := by
  induction files generalizing d outcome with
  | nil =>
    obtain rfl : d = e := by injection h
    exact wrote_nil d
  | cons f rest ih =>
    rw [List.foldlM_cons, run_bind_eq_ok] at h
    obtain ⟨next, m, hfirst, hrest⟩ := h
    have hwrite : ∃ w, writeFile .always (join dir f.path) f.content d = .ok w m := by
      unfold writeInto at hfirst
      cases hw : writeFile .always (join dir f.path) f.content d with
      | error failure u =>
        rw [hw] at hfirst
        nomatch hfirst
      | ok w u =>
        rw [hw] at hfirst
        obtain rfl : u = m := by cases w <;> injection hfirst
        exact ⟨w, rfl⟩
    obtain ⟨w, hwrite⟩ := hwrite
    exact (ih hrest).cons (writes_writeFile hwrite).2

/-- Each file can be read back exactly when none goes where another one goes, as long as no two have
the same content. -/
theorem Wrote.readText?_iff (h : Wrote dir files d e) (hcontents : (files.map (·.content)).Nodup) :
    (∀ f ∈ files, e.readText? (join dir f.path) = some f.content) ↔
      (files.map (placeOf d dir)).Nodup := by
  have hread : ∀ f ∈ files, e.readText? (join dir f.path) = some f.content ↔
      e.find (placeOf d dir f) = some (.file (.text f.content)) :=
    fun f hf => readText?_eq_some_iff (h.walk f hf)
  constructor
  · intro hall
    refine List.Nodup.map_on (fun f hf g hg hplace => ?_) (hcontents.of_map _)
    have hf' := (hread f hf).mp (hall f hf)
    have hg' := (hread g hg).mp (hall g hg)
    rw [hplace, hg'] at hf'
    have hsame : g.content = f.content := by simpa using hf'
    exact List.inj_on_of_nodup_map hcontents hf hg hsame.symm
  · intro hplaces f hf
    obtain ⟨front, back, rfl⟩ := List.append_of_mem hf
    refine (hread f hf).mpr (h.last rfl fun g hg hplace => ?_)
    rw [List.map_append, List.map_cons, List.nodup_append, List.nodup_cons] at hplaces
    exact hplaces.2.1.1 (hplace ▸ List.mem_map_of_mem hg)

/-! ### The generated files -/

/-- A module starts with its first comment. -/
theorem render_startsWith {m : TypeScript.Module} {line : String} {rest : List String}
    (hline : line.isEmpty = false) (hheader : m.header = line :: rest) :
    ∃ tail, m.render = "// " ++ line ++ tail := by
  have hcomment : commentLine line = "// " ++ line := if_neg (by simp [hline])
  have hfirst : Code.render (Fragment.comments (line :: rest)) =
      "// " ++ line ++ ("\n" ++ textsAt 0 (Fragment.comments rest)) := by
    rw [render_eq, ← hcomment, ← String.append_assoc]
    rfl
  have hsections : m.sections = Fragment.comments (line :: rest) :: m.sectionsBelow := by
    rw [TypeScript.Module.sections, hheader]
    rfl
  refine ⟨"\n".intercalate (("\n" ++ textsAt 0 (Fragment.comments rest)) ::
    m.sectionsBelow.map Code.render), ?_⟩
  rw [m.render_eq_intercalate, hsections, List.map_cons, hfirst, String.intercalate_cons_append]

/-- The three documents differ in their first line. -/
theorem nodup_contents (g : Generator) : (g.files.map (·.content)).Nodup := by
  obtain ⟨types, htypes⟩ := render_startsWith (m := g.typesDocument.contents) (by simp) rfl
  obtain ⟨client, hclient⟩ := render_startsWith (m := g.clientDocument.contents) (by simp) rfl
  obtain ⟨service, hservice⟩ := render_startsWith (m := serviceModule) (by simp) rfl
  have hstarts : (g.files.map (·.content)).map (fun content => content.toList.take 14) =
      ["// Generated T".toList, "// Generated A".toList, "// Generated H".toList] := by
    simp [files, TypesDocument.render, ClientDocument.render, htypes, hclient, hservice]
  have hdistinct : ((g.files.map (·.content)).map fun content => content.toList.take 14).Nodup := by
    rw [hstarts]
    decide
  exact hdistinct.of_map _

end Generator

open Generator

variable {d : Document} {config : Config} {options : Options} {now : String} {disk after : Disk}
  {r : GenerateReport}

/-- A generation that writes leaves its files behind. -/
theorem wrote_of_generate (hwrite : options.dryRun = false)
    (h : generate d config options now disk = .ok r after) :
    ∃ m, m.current = disk.current ∧
      Wrote config.output.dir (d.generator config now).files m after := by
  cases herrors : (Pipeline.linted d config).hasErrors with
  | true => nomatch h.symm.trans (generate_of_errors d config options now disk herrors)
  | false =>
    rw [generate_of_passed d config options now herrors, run_bind_eq_ok] at h
    obtain ⟨_, m, hinspect, h⟩ := h
    obtain ⟨result, after', hproduce, hreport⟩ := run_bind_eq_ok.mp h
    obtain rfl : after' = after := by injection hreport
    obtain ⟨_, hsettles⟩ := repeatable_inspect _ _ _ _ (adaptExcept_eq_ok.mp hinspect)
    refine ⟨m, hsettles.yields.le.current, ?_⟩
    unfold produce at hproduce
    rw [hwrite, if_neg Bool.false_ne_true] at hproduce
    cases hfiles : (d.generator config now).generate config.output.dir m with
    | error failure u =>
      rw [hfiles] at hproduce
      nomatch hproduce
    | ok outcome u =>
      rw [hfiles] at hproduce
      obtain rfl : u = after' := by injection hproduce
      exact wrote_of_foldlM hfiles

/-- After a generation that writes, each of the output paths reads back as the content that is
previewed for it, exactly when the paths lead to different places, with dots taken as steps. -/
theorem written_files_read_back_iff (hwrite : options.dryRun = false)
    (h : generate d config options now disk = .ok r after) :
    (∀ f ∈ (d.generator config now).files,
        after.readText? (join config.output.dir f.path) = some f.content) ↔
      ((d.generator config now).files.map fun f =>
        disk.place (join config.output.dir f.path)).Nodup := by
  obtain ⟨m, hcurrent, hwrote⟩ := wrote_of_generate hwrite h
  have hplaces : ((d.generator config now).files.map fun f =>
      disk.place (join config.output.dir f.path)) =
      (d.generator config now).files.map (placeOf m config.output.dir) :=
    List.map_congr_left fun f _ => (Disk.place_congr hcurrent _).symm
  rw [hplaces]
  exact hwrote.readText?_iff (nodup_contents _)

theorem petDocument_read_back : ∃ r after,
    generate (petDocument "Pet") .default ⟨false, false⟩ "" .empty = .ok r after ∧
      ∀ f ∈ ((petDocument "Pet").generator .default "").files,
        after.readText? (join Config.default.output.dir f.path) = some f.content := by
  have hok : succeedsWith (fun _ _ => true)
      (generate (petDocument "Pet") .default ⟨false, false⟩ "") .empty = true := by decide +kernel
  obtain ⟨r, after, h, _⟩ := exists_of_succeedsWith hok
  have hplaces : (((petDocument "Pet").generator .default "").files.map fun f =>
      Disk.empty.place (join Config.default.output.dir f.path)).Nodup := by decide +kernel
  exact ⟨r, after, h, (written_files_read_back_iff rfl h).mpr hplaces⟩

/-- Settings with two paths that part at a dot and lead to the same place. -/
def meetingText : String :=
  "[output]\ntypes = \"api.ts\"\nclient = \"./api.ts\"\n\n[generation]\ntimestamp = false\n"

/-- The settings are accepted and the generation succeeds, and the path of the types reads back as the
client. -/
theorem client_in_place_of_types : ∃ config r after,
    Config.ofSource ⟨Config.fileName, meetingText⟩ = .ok config ∧
      generate .empty config ⟨false, false⟩ "" .empty = .ok r after ∧
      after.readText? (join config.output.dir config.output.types) =
        some (Document.empty.generator config "").clientDocument.render ∧
      after.readText? (join config.output.dir config.output.types) ≠
        some (Document.empty.generator config "").typesDocument.render := by
  have hrun : ((Config.ofSource ⟨Config.fileName, meetingText⟩).toOption.any fun config =>
      succeedsWith (fun _ after =>
        after.readText? (join config.output.dir config.output.types) ==
            some (Document.empty.generator config "").clientDocument.render &&
          after.readText? (join config.output.dir config.output.types) !=
            some (Document.empty.generator config "").typesDocument.render)
        (generate .empty config ⟨false, false⟩ "") .empty) = true := by decide +kernel
  cases hconfig : Config.ofSource ⟨Config.fileName, meetingText⟩ with
  | error e =>
    rw [hconfig] at hrun
    nomatch hrun
  | ok config =>
    rw [hconfig] at hrun
    obtain ⟨r, after, h, hread⟩ := exists_of_succeedsWith hrun
    obtain ⟨hclient, htypes⟩ := Bool.and_eq_true_iff.mp hread
    exact ⟨config, r, after, rfl, h, by simpa using hclient, by simpa using htypes⟩

end TypedClient
