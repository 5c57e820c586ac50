import TypedClient.Proofs.DiskOperations

/-! Writes that can be repeated. A step on a disk is repeatable when, wherever it succeeds, it makes
changes only, and on every later disk it succeeds again with the same result and writes just the same
files. So a repeatable step that is taken twice in a row leaves what it left the first time. Such
steps can be put one behind the other, since what they need stays there. -/

namespace TypedClient.Files

variable {ε ε' α β : Type}

/-- On `d`, a step comes to `e` by changes; on disks later than `e` it writes their files again and
does nothing else. -/
structure Settles (op : EStateM ε Disk α) (d : Disk) (r : α) (changes : List Change) (e : Disk) :
    Prop where
  yields : d.Yields changes e
  again : ∀ g, e ≤ g → op g = .ok r (g.rewrite changes)

/-- Wherever the step succeeds, it can be taken again. -/
def Repeatable (op : EStateM ε Disk α) : Prop :=
  ∀ ⦃d r e⦄, op d = .ok r e → ∃ changes, Settles op d r changes e

namespace Repeatable

theorem pure (r : α) : Repeatable (pure r : EStateM ε Disk α) := by
  intro d r' e h
  obtain ⟨rfl, rfl⟩ : r = r' ∧ d = e := by injection h with hr hd; exact ⟨hr, hd⟩
  exact ⟨[], .start, fun _ _ => rfl⟩

/-- What the first step leaves there is there for the second. -/
theorem bind {x : EStateM ε Disk α} {f : α → EStateM ε Disk β} (hx : Repeatable x)
    (hf : ∀ a, Repeatable (f a)) : Repeatable (x >>= f) := by
  intro d b e h
  obtain ⟨a, m, hfirst, hsecond⟩ := run_bind_eq_ok.mp h
  obtain ⟨before, hbefore⟩ := hx hfirst
  obtain ⟨after, hafter⟩ := hf a hsecond
  refine ⟨before ++ after, hbefore.yields.trans hafter.yields, fun g hg => ?_⟩
  have hmg : m ≤ g := hafter.yields.le.trans hg
  have hrewritten : g ≤ g.rewrite before := Disk.le_rewrite (hbefore.yields.covers.mono hmg)
  refine run_bind_eq_ok.mpr ⟨a, g.rewrite before, hbefore.again g hmg, ?_⟩
  rw [Disk.rewrite_append]
  exact hafter.again _ (hg.trans hrewritten)

/-- A step that succeeds when another one does, with a result that depends on the other's alone. -/
theorem of_ok_iff {op : EStateM ε Disk α} {op' : EStateM ε' Disk β} (F : α → β) (hop : Repeatable op)
    (h : ∀ {d r e}, op' d = .ok r e ↔ ∃ s, op d = .ok s e ∧ F s = r) : Repeatable op' := by
  intro d r e hok
  obtain ⟨s, hs, rfl⟩ := h.mp hok
  obtain ⟨changes, hsettles⟩ := hop hs
  exact ⟨changes, hsettles.yields, fun g hg => h.mpr ⟨s, hsettles.again g hg, rfl⟩⟩

theorem adaptExcept {op : EStateM ε Disk α} (hop : Repeatable op) (f : ε → ε') :
    Repeatable (op.adaptExcept f) := by
  intro d r e h
  obtain ⟨changes, hsettles⟩ := hop (adaptExcept_eq_ok.mp h)
  exact ⟨changes, hsettles.yields, fun g hg => adaptExcept_eq_ok.mpr (hsettles.again g hg)⟩

theorem foldlM {step : β → α → EStateM ε Disk β} (hstep : ∀ b a, Repeatable (step b a)) (l : List α)
    (b : β) : Repeatable (l.foldlM step b) := by
  induction l generalizing b with
  | nil => exact pure b
  | cons a rest ih =>
    rw [List.foldlM_cons]
    exact bind (hstep b a) ih

/-- Taken again where it left off, the step gives the same result and changes nothing. -/
theorem again {op : EStateM ε Disk α} (hop : Repeatable op) {d e : Disk} {r : α}
    (h : op d = .ok r e) : op e = .ok r e := by
  obtain ⟨changes, hsettles⟩ := hop h
  rw [hsettles.again e le_rfl, hsettles.yields.rewrite_eq]

end Repeatable

/-! ### Writing one file -/

/-- A step that writes one file: it makes directories, then puts the content where the path leads. On
a later disk it puts the content there and does nothing else. -/
structure Writes (op : EStateM ε Disk α) (r : α) (path : String) (c : Content) (d e : Disk) :
    Prop where
  made : ∃ m, d.Opens m ∧ m.find (d.place path) ≠ some .directory ∧ e = m.set (d.place path) (.file c)
  walk : e.walk path = .ok ⟨d.place path, true, false⟩
  again : ∀ g, e ≤ g → op g = .ok r (g.set (d.place path) (.file c))

theorem Writes.settles {op : EStateM ε Disk α} {r : α} {path : String} {c : Content} {d e : Disk}
    (h : Writes op r path c d e) : ∃ changes, Settles op d r changes e := by
  obtain ⟨m, ⟨made, hyields, hdirs⟩, hfree, rfl⟩ := h.made
  refine ⟨made ++ [(d.place path, .file c)], hyields.file hfree c, fun g hg => ?_⟩
  rw [Disk.rewrite_append, Disk.rewrite_directories hdirs]
  exact h.again g hg

/-- A step that makes directories, and does nothing on a later disk. -/
def Prepares (op : DiskM Unit) : Prop :=
  ∀ ⦃d e⦄, op d = .ok () e → d.Opens e ∧ ∀ g, e ≤ g → op g = .ok () g

theorem prepares_makeDirectories (dir : String) (failure : Cause → Failure) :
    Prepares ((makeDirectories dir).named failure) := by
  intro d e h
  obtain ⟨hopens, hthere⟩ := makeDirectories_opens (named_eq_ok.mp h)
  refine ⟨hopens, fun g hg => named_eq_ok.mpr (makeDirectories_again ?_)⟩
  exact hthere.imp_right (Disk.isDirectory_le hg)

/-- A file is written after directories are made. -/
theorem writes_of_prepares {prepare : DiskM Unit} (hprepare : Prepares prepare) {path : String}
    {c : Content} {failure : Cause → Failure} {d e : Disk}
    (h : (prepare >>= fun _ => (overwrite path c).named failure) d = .ok () e) :
    Writes (prepare >>= fun _ => (overwrite path c).named failure) () path c d e := by
  obtain ⟨_, m, hmade, hwrite⟩ := run_bind_eq_ok.mp h
  obtain ⟨hopens, hagain⟩ := hprepare hmade
  obtain ⟨hwalk, hfits, hfree, rfl⟩ := overwrite_eq_ok_iff.mp (named_eq_ok.mp hwrite)
  have hplace : m.place path = d.place path := Disk.place_congr hopens.le.current path
  rw [hplace] at hwalk hfits hfree ⊢
  have hle : m ≤ m.set (d.place path) (.file c) := Disk.le_set_file hfree c
  refine ⟨⟨m, hopens, hfree, rfl⟩, Disk.walk_le hle hwalk, fun g hg => ?_⟩
  have hgplace : g.place path = d.place path :=
    Disk.place_congr (hg.current.trans (hle.current.trans hopens.le.current)) path
  have hgfile : ∃ c', g.find (d.place path) = some (.file c') := by
    refine hg.file (c := c) ?_
    rw [Disk.find_set (Disk.ne_nil_of_find hfree), if_pos rfl]
  obtain ⟨c', hgfile⟩ := hgfile
  refine run_bind_eq_ok.mpr ⟨(), g, hagain g (hle.trans hg), named_eq_ok.mpr ?_⟩
  refine overwrite_eq_ok_iff.mpr ?_
  rw [hgplace]
  exact ⟨Disk.walk_le (hle.trans hg) hwalk, hfits, by simp [hgfile], rfl⟩

/-- The directories for a file are made. -/
def prepare (path : String) : DiskM Unit :=
  match parent? path with
  | none => pure ()
  | some dir => if dir.isEmpty then pure () else (makeDirectories dir).named (.create dir)

theorem prepares_prepare (path : String) : Prepares (prepare path) := by
  have hnothing : Prepares (pure ()) := by
    intro d e h
    obtain rfl : d = e := by injection h
    exact ⟨.refl d, fun _ _ => rfl⟩
  unfold prepare
  split
  · exact hnothing
  · split
    · exact hnothing
    · exact prepares_makeDirectories _ _

theorem writeText_eq (path text : String) : writeText path text =
    prepare path >>= fun _ => (overwrite path (.text text)).named (.write path) := by
  unfold writeText prepare
  cases parent? path with
  | none => rfl
  | some dir =>
    dsimp only
    cases dir.isEmpty <;> rfl

theorem writes_writeFile {path text : String} {w : Written} {d e : Disk}
    (h : writeFile .always path text d = .ok w e) :
    w = .written ∧ Writes (writeFile .always path text) .written path (.text text) d e := by
  have hwrite : writeFile .always path text = writeText path text >>= fun _ => pure .written := rfl
  rw [hwrite, run_bind_eq_ok] at h
  obtain ⟨_, m, htext, hpure⟩ := h
  obtain ⟨rfl, rfl⟩ : .written = w ∧ m = e := by injection hpure with hw hm; exact ⟨hw, hm⟩
  rw [writeText_eq] at htext
  have hwrites := writes_of_prepares (prepares_prepare path) htext
  refine ⟨rfl, hwrites.made, hwrites.walk, fun g hg => ?_⟩
  rw [hwrite, run_bind_eq_ok, writeText_eq]
  exact ⟨(), _, hwrites.again g hg, rfl⟩

theorem repeatable_writeFile (path text : String) : Repeatable (writeFile .always path text) := by
  intro d w e h
  obtain ⟨rfl, hwrites⟩ := writes_writeFile h
  exact hwrites.settles

end TypedClient.Files
