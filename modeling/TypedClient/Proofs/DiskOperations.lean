import TypedClient.Files.Write
import TypedClient.Proofs.DiskChanges
import TypedClient.Proofs.Sequences

/-! What the operations on a disk do where they succeed. A path leads to the place that its names
spell out. Making directories takes nothing away and leaves them there; writing a text makes the
directories above it and changes no file but its own. Each of these can be done again on any later
disk, and then does no more than write the file. -/

namespace TypedClient.Files

/-! ### Paths -/

/-- The names and dots between the slashes of a path. -/
def parts (path : String) : List String :=
  ((segments path.toList).filter fun part => !part.isEmpty).map String.ofList

/-- One step by name alone. -/
def advance (here : Address) (part : String) : Address :=
  if part == "." then here else if part == ".." then here.dropLast else here ++ [part]

namespace Disk

/-- Where a path starts. -/
def origin (d : Disk) (path : String) : Address := if isAbsolute path then [] else d.current

/-- Where a path leads by its names, if all that it passes is there. -/
def place (d : Disk) (path : String) : Address := (parts path).foldl advance (d.origin path)

/-- The target of a path that leads to an address. -/
def target (path : String) (address : Address) : Target :=
  ⟨address,
    (match (parts path).getLast? with
      | none => false
      | some last => last != "." && last != ".."),
    path.toList.getLast? == some '/'⟩

variable {d e : Disk} {here there : Address} {part path : String} {t : Target}

theorem place_congr (h : e.current = d.current) (path : String) : e.place path = d.place path := by
  unfold place origin
  rw [h]

theorem step_eq (d : Disk) (here : Address) (part : String) : d.step here part =
    if fits here then
      match d.find here with
      | none => .error .notFound
      | some (.file _) => .error .notDirectory
      | some .directory => .ok (advance here part)
    else .error .nameTooLong := by
  unfold step advance
  cases fits here with
  | false => rfl
  | true =>
    rcases d.find here with _ | _ | _
    · rfl
    · cases part == "." <;> cases part == ".." <;> rfl
    · rfl

/-- A step leads out of a directory, to where its name says. -/
theorem step_eq_ok_iff : d.step here part = .ok there ↔
    fits here = true ∧ d.find here = some .directory ∧ there = advance here part := by
  rw [step_eq]
  cases fits here with
  | false => simp
  | true => rcases d.find here with _ | _ | _ <;> simp [@eq_comm _ there]

theorem foldlM_step_le (hle : d ≤ e) {names : List String}
    (h : names.foldlM d.step here = .ok there) : names.foldlM e.step here = .ok there := by
  induction names generalizing here with
  | nil => exact h
  | cons name rest ih =>
    rw [List.foldlM_cons, bind_eq_ok] at h ⊢
    obtain ⟨next, hstep, hrest⟩ := h
    obtain ⟨hfits, hfind, hnext⟩ := step_eq_ok_iff.mp hstep
    exact ⟨next, step_eq_ok_iff.mpr ⟨hfits, hle.directory hfind, hnext⟩, ih hrest⟩

theorem foldlM_step_eq {names : List String} (h : names.foldlM d.step here = .ok there) :
    there = names.foldl advance here := by
  induction names generalizing here with
  | nil => exact (Except.ok.inj h).symm
  | cons name rest ih =>
    rw [List.foldlM_cons, bind_eq_ok] at h
    obtain ⟨next, hstep, hrest⟩ := h
    obtain ⟨_, _, rfl⟩ := step_eq_ok_iff.mp hstep
    exact ih hrest

/-- Whether a path can be walked at all. -/
def isWalkable (path : String) : Bool :=
  !path.toList.contains '\x00' && !path.isEmpty && decide (path.utf8ByteSize < maxPath)

theorem walk_eq (d : Disk) (path : String) : d.walk path =
    if path.toList.contains '\x00' then .error .nulInName
    else if path.isEmpty then .error .notFound
    else if maxPath ≤ path.utf8ByteSize then .error .nameTooLong
    else (parts path).foldlM d.step (d.origin path) >>= fun a => Except.ok (target path a) :=
  rfl

theorem walk_eq_ok_iff : d.walk path = .ok t ↔ isWalkable path = true ∧
    ∃ a, (parts path).foldlM d.step (d.origin path) = .ok a ∧ t = target path a := by
  rw [walk_eq, isWalkable]
  cases path.toList.contains '\x00' with
  | true => simp
  | false =>
    cases path.isEmpty with
    | true => simp
    | false =>
      by_cases hlong : maxPath ≤ path.utf8ByteSize
      · simp [hlong, Nat.not_lt.mpr hlong]
      · simp [hlong, Nat.lt_of_not_le hlong, bind_eq_ok, @eq_comm _ t]

/-- A path that leads somewhere leads there on every later disk. -/
theorem walk_le (hle : d ≤ e) (h : d.walk path = .ok t) : e.walk path = .ok t := by
  obtain ⟨hwalkable, a, hfold, ht⟩ := walk_eq_ok_iff.mp h
  have horigin : e.origin path = d.origin path := by rw [origin, origin, hle.current]
  exact walk_eq_ok_iff.mpr ⟨hwalkable, a, horigin ▸ foldlM_step_le hle hfold, ht⟩

theorem address_eq_place (h : d.walk path = .ok t) : t.address = d.place path := by
  obtain ⟨_, a, hfold, rfl⟩ := walk_eq_ok_iff.mp h
  exact foldlM_step_eq hfold

theorem isDirectory_iff : d.isDirectory path = true ↔
    ∃ t, d.walk path = .ok t ∧ d.find t.address = some .directory := by
  unfold isDirectory
  cases d.walk path with
  | error cause => simp
  | ok t => simp

theorem isDirectory_le (hle : d ≤ e) (h : d.isDirectory path = true) : e.isDirectory path = true := by
  obtain ⟨t, hwalk, hfind⟩ := isDirectory_iff.mp h
  exact isDirectory_iff.mpr ⟨t, walk_le hle hwalk, hle.directory hfind⟩

/-! ### Making directories -/

/-- `e` comes out of `d` by making directories and nothing else. -/
def Opens (d e : Disk) : Prop :=
  ∃ made, d.Yields made e ∧ ∀ change ∈ made, change.2 = .directory

theorem Opens.refl (d : Disk) : d.Opens d := ⟨[], .start, fun _ h => nomatch h⟩

theorem Opens.trans {f : Disk} (h : d.Opens e) (k : e.Opens f) : d.Opens f := by
  obtain ⟨before, hbefore, hdirs⟩ := h
  obtain ⟨after, hafter, hdirs'⟩ := k
  refine ⟨before ++ after, hbefore.trans hafter, fun change hmem => ?_⟩
  exact (List.mem_append.mp hmem).elim (hdirs change) (hdirs' change)

/-- What is there stays. -/
theorem Opens.find_eq_some (h : d.Opens e) {a : Address} {node : Node} (ha : d.find a = some node) :
    e.find a = some node := by
  obtain ⟨made, hyields, hdirs⟩ := h
  induction hyields with
  | start => exact ha
  | @directory changes e b _ hfree ih =>
    have hfind := ih fun change hmem => hdirs change (List.mem_append_left _ hmem)
    rw [Disk.find_set (ne_nil_of_free hfree), if_neg, hfind]
    rintro rfl
    nomatch hfree.symm.trans hfind
  | file _ _ c _ =>
    have hfile : Node.file c = .directory :=
      hdirs _ (List.mem_append_right _ (List.mem_singleton_self _))
    nomatch hfile

theorem Opens.le (h : d.Opens e) : d ≤ e := by
  obtain ⟨_, hyields, _⟩ := h
  exact hyields.le

theorem rewrite_directories {made : List Change} (h : ∀ change ∈ made, change.2 = .directory) :
    d.rewrite made = d := by
  induction made with
  | nil => rfl
  | cons change rest ih =>
    obtain ⟨a, node⟩ := change
    obtain rfl : node = .directory := h _ (List.mem_cons_self ..)
    exact ih fun change hmem => h change (List.mem_cons_of_mem _ hmem)

end Disk

/-! ### Operations -/

theorem ofExcept_eq_ok {f : Disk → Except Cause Disk} {d e : Disk} :
    DiskOp.ofExcept f d = .ok () e ↔ f d = .ok e := by
  rw [DiskOp.ofExcept, get_bind]
  cases f d with
  | ok e' =>
    show EStateM.Result.ok () e' = .ok () e ↔ Except.ok e' = .ok e
    simp
  | error cause =>
    show EStateM.Result.error cause d = .ok () e ↔ Except.error cause = .ok e
    simp

theorem named_eq_ok {op : DiskOp} {failure : Cause → Failure} {d e : Disk} :
    op.named failure d = .ok () e ↔ op d = .ok () e := by
  unfold DiskOp.named
  cases op d with
  | ok _ f => simp
  | error cause f => simp

section Directories

variable {d e g : Disk} {path : String}

theorem makeDirectory_eq_ok_iff : makeDirectory path d = .ok () e ↔ ∃ t, d.walk path = .ok t ∧
    Disk.fits t.address = true ∧ d.find t.address = none ∧ e = d.set t.address .directory := by
  rw [makeDirectory, ofExcept_eq_ok, bind_eq_ok]
  refine exists_congr fun t => and_congr_right fun _ => ?_
  cases Disk.fits t.address with
  | false => simp [throw, throwThe, MonadExceptOf.throw, bind, Except.bind]
  | true =>
    cases d.find t.address with
    | none => simp [pure, Except.pure, eq_comm]
    | some node => simp [throw, throwThe, MonadExceptOf.throw, bind, Except.bind]

/-- A directory that is asked for is there afterwards. -/
theorem ensureDirectory_opens (h : ensureDirectory path d = .ok () e) :
    d.Opens e ∧ e.isDirectory path = true := by
  rw [ensureDirectory, get_bind] at h
  cases hwalk : d.walk path with
  | error cause =>
    rw [hwalk] at h
    nomatch h
  | ok t =>
    rw [hwalk] at h
    dsimp only at h
    cases hfind : d.find t.address with
    | none =>
      rw [hfind] at h
      obtain ⟨t', hwalk', _, _, rfl⟩ := makeDirectory_eq_ok_iff.mp h
      obtain rfl : t = t' := Except.ok.inj (hwalk.symm.trans hwalk')
      have hle := Disk.le_set_directory hfind
      have ha : t.address ≠ [] := Disk.ne_nil_of_free hfind
      refine ⟨⟨_, .directory .start hfind, by simp⟩, Disk.isDirectory_iff.mpr ⟨t, ?_, ?_⟩⟩
      · exact Disk.walk_le hle hwalk
      · rw [Disk.find_set ha, if_pos rfl]
    | some node =>
      rw [hfind] at h
      cases node with
      | directory =>
        obtain rfl : d = e := by injection h
        exact ⟨.refl d, Disk.isDirectory_iff.mpr ⟨t, hwalk, hfind⟩⟩
      | file c => nomatch h

theorem ensureDirectory_of_isDirectory (h : g.isDirectory path = true) :
    ensureDirectory path g = .ok () g := by
  obtain ⟨t, hwalk, hfind⟩ := Disk.isDirectory_iff.mp h
  rw [ensureDirectory, get_bind, hwalk]
  dsimp only
  rw [hfind]
  rfl

/-- The directories above are made where the path passes something that is missing. -/
theorem ensureAll_cons_of_notFound {above : String} {rest : List String}
    (h : d.walk path = .error .notFound) :
    ensureAll path (above :: rest) d =
      (ensureAll above rest >>= fun _ => ensureDirectory path) d := by
  rw [ensureAll, get_bind, h]

theorem ensureAll_cons_of_ne {above : String} {rest : List String}
    (h : d.walk path ≠ .error .notFound) :
    ensureAll path (above :: rest) d = ensureDirectory path d := by
  rw [ensureAll, get_bind]
  cases hwalk : d.walk path with
  | ok t => rfl
  | error cause =>
    cases cause with
    | notFound => exact absurd hwalk h
    | _ => rfl

theorem ensureAll_opens {above : List String} (h : ensureAll path above d = .ok () e) :
    d.Opens e ∧ e.isDirectory path = true := by
  induction above generalizing path d e with
  | nil => exact ensureDirectory_opens h
  | cons above rest ih =>
    by_cases hmissing : d.walk path = .error .notFound
    · rw [ensureAll_cons_of_notFound hmissing, run_bind_eq_ok] at h
      obtain ⟨_, m, habove, hlast⟩ := h
      obtain ⟨hopens, hdirectory⟩ := ensureDirectory_opens hlast
      exact ⟨(ih habove).1.trans hopens, hdirectory⟩
    · rw [ensureAll_cons_of_ne hmissing] at h
      exact ensureDirectory_opens h

theorem ensureAll_of_isDirectory (above : List String) (h : g.isDirectory path = true) :
    ensureAll path above g = .ok () g := by
  obtain ⟨t, hwalk, _⟩ := Disk.isDirectory_iff.mp h
  cases above with
  | nil => exact ensureDirectory_of_isDirectory h
  | cons above rest =>
    rw [ensureAll_cons_of_ne (by simp [hwalk])]
    exact ensureDirectory_of_isDirectory h

/-- All that leads to a directory is there afterwards, except that nothing is made for a path that no
directory holds. -/
theorem makeDirectories_opens (h : makeDirectories path d = .ok () e) :
    d.Opens e ∧ ((parent? path).isNone = true ∨ e.isDirectory path = true) := by
  unfold makeDirectories at h
  cases hparent : (parent? path).isNone with
  | true =>
    rw [hparent, if_pos rfl] at h
    obtain rfl : d = e := by injection h
    exact ⟨.refl d, .inl rfl⟩
  | false =>
    rw [hparent, if_neg Bool.false_ne_true] at h
    obtain ⟨hopens, hdirectory⟩ := ensureAll_opens h
    exact ⟨hopens, .inr hdirectory⟩

theorem makeDirectories_again
    (h : (parent? path).isNone = true ∨ g.isDirectory path = true) :
    makeDirectories path g = .ok () g := by
  unfold makeDirectories
  split
  · rfl
  · next hparent => exact ensureAll_of_isDirectory _ (h.resolve_left hparent)

end Directories

/-! ### Reading and writing files -/

theorem readText?_eq_some_iff {d : Disk} {path s : String} {a : Address}
    (h : d.walk path = .ok ⟨a, true, false⟩) :
    d.readText? path = some s ↔ d.find a = some (.file (.text s)) := by
  rw [Disk.readText?, Disk.read?, h]
  dsimp only
  rcases d.find a with _ | _ | c
  · simp
  · simp
  · cases c <;> simp

theorem overwrite_eq_ok_iff {d e : Disk} {path : String} {c : Content} :
    overwrite path c d = .ok () e ↔ d.walk path = .ok ⟨d.place path, true, false⟩ ∧
      Disk.fits (d.place path) = true ∧ d.find (d.place path) ≠ some .directory ∧
      e = d.set (d.place path) (.file c) := by
  have htarget : (∃ t, d.walk path = .ok t ∧ t = ⟨t.address, true, false⟩ ∧
        Disk.fits t.address = true ∧ d.find t.address ≠ some .directory ∧
        e = d.set t.address (.file c)) ↔ d.walk path = .ok ⟨d.place path, true, false⟩ ∧
      Disk.fits (d.place path) = true ∧ d.find (d.place path) ≠ some .directory ∧
      e = d.set (d.place path) (.file c) := by
    constructor
    · rintro ⟨t, hwalk, ht, h⟩
      rw [Disk.address_eq_place hwalk] at ht h
      exact ⟨ht ▸ hwalk, h⟩
    · rintro ⟨hwalk, h⟩
      exact ⟨_, hwalk, rfl, h⟩
  rw [overwrite, ofExcept_eq_ok, bind_eq_ok, ← htarget]
  refine exists_congr fun t => and_congr_right fun _ => ?_
  obtain ⟨a, named, slashed⟩ := t
  cases slashed with
  | true => simp [throw, throwThe, MonadExceptOf.throw, bind, Except.bind]
  | false =>
    cases named with
    | false => simp [throw, throwThe, MonadExceptOf.throw, bind, Except.bind]
    | true =>
      cases Disk.fits a with
      | false => simp [throw, throwThe, MonadExceptOf.throw, bind, Except.bind]
      | true =>
        rcases d.find a with _ | _ | _ <;>
          simp [throw, throwThe, MonadExceptOf.throw, pure, Except.pure, @eq_comm _ e]

end TypedClient.Files
