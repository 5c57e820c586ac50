import Mathlib.Order.Basic
import TypedClient.Files.Disk

/-! How disks change. Directories are made where nothing is, and files are written where no directory
is. Such changes take nothing away: a directory stays one and a file stays one, so a path that leads
somewhere goes on leading there. Writing the same files again, in the same order, changes nothing. -/

namespace TypedClient.Files

/-- A node that is put at an address. -/
abbrev Change := Address × Node

namespace Disk

/-! ### One node -/

theorem find_eq_lookup (d : Disk) {a : Address} (ha : a ≠ []) : d.find a = d.nodes.lookup a := by
  cases a with
  | nil => exact absurd rfl ha
  | cons name rest => rfl

/-- The root is a directory. -/
theorem ne_nil_of_find {d : Disk} {a : Address} (h : d.find a ≠ some .directory) : a ≠ [] := by
  rintro rfl
  exact h rfl

theorem ne_nil_of_free {d : Disk} {a : Address} (h : d.find a = none) : a ≠ [] :=
  ne_nil_of_find (d := d) (by simp [h])

theorem ne_nil_of_file {d : Disk} {a : Address} {c : Content} (h : d.find a = some (.file c)) :
    a ≠ [] := ne_nil_of_find (d := d) (by simp [h])

/-- The nodes with the one at an address replaced. -/
def replaced (a : Address) (node : Node) (nodes : List Change) : List Change :=
  nodes.map fun (b, n) => (b, if b = a then node else n)

theorem lookup_replaced (a b : Address) (node : Node) (nodes : List Change) :
    (replaced a node nodes).lookup b =
      (nodes.lookup b).map fun n => if b = a then node else n := by
  induction nodes with
  | nil => rfl
  | cons entry rest ih =>
    obtain ⟨key, n⟩ := entry
    have hrest : replaced a node ((key, n) :: rest) =
        (key, if key = a then node else n) :: replaced a node rest := rfl
    rw [hrest, List.lookup_cons, List.lookup_cons, ih]
    by_cases hb : b = key
    · simp [hb]
    · have hne : (b == key) = false := beq_false_of_ne hb
      simp [hne]

theorem any_eq_isSome_lookup (nodes : List Change) (a : Address) :
    nodes.any (·.1 == a) = (nodes.lookup a).isSome := by
  rw [Bool.eq_iff_iff, List.any_eq_true, List.lookup_isSome_iff]
  simp only [beq_iff_eq, @eq_comm _ a]

theorem set_of_some {d : Disk} {a : Address} (node : Node) (ha : a ≠ [])
    (h : (d.find a).isSome = true) : d.set a node = { d with nodes := replaced a node d.nodes } := by
  rw [find_eq_lookup d ha, ← any_eq_isSome_lookup] at h
  exact if_pos h

theorem set_of_none {d : Disk} {a : Address} (node : Node) (h : d.find a = none) :
    d.set a node = { d with nodes := d.nodes ++ [(a, node)] } := by
  have ha : a ≠ [] := ne_nil_of_free h
  have hany : d.nodes.any (·.1 == a) = false := by
    rw [any_eq_isSome_lookup, ← find_eq_lookup d ha, h]
    rfl
  exact if_neg (by simp [hany])

/-- A node that is put in its place is found there, and nothing else changes. -/
theorem find_set {d : Disk} {a : Address} (ha : a ≠ []) (node : Node) (b : Address) :
    (d.set a node).find b = if b = a then some node else d.find b := by
  by_cases hb : b = []
  · rw [hb, if_neg (Ne.symm ha)]
    rfl
  · rw [find_eq_lookup _ hb, find_eq_lookup _ hb]
    cases hfind : d.find a with
    | none =>
      rw [set_of_none node hfind, List.lookup_append]
      rw [find_eq_lookup d ha] at hfind
      by_cases hba : b = a
      · simp [hba, hfind]
      · have hne : (b == a) = false := beq_false_of_ne hba
        simp [hba, List.lookup_cons, hne]
    | some n =>
      rw [set_of_some node ha (by simp [hfind]), lookup_replaced]
      rw [find_eq_lookup d ha] at hfind
      by_cases hba : b = a
      · simp [hba, hfind]
      · simp [hba]

@[simp] theorem current_set (d : Disk) (a : Address) (node : Node) :
    (d.set a node).current = d.current := by
  unfold set
  split <;> rfl

/-! ### Two nodes -/

theorem replaced_replaced (a : Address) (m n : Node) (nodes : List Change) :
    replaced a n (replaced a m nodes) = replaced a n nodes := by
  simp only [replaced, List.map_map]
  refine List.map_congr_left fun entry _ => ?_
  by_cases ha : entry.1 = a <;> simp [ha]

theorem replaced_comm {a b : Address} (hab : a ≠ b) (m n : Node) (nodes : List Change) :
    replaced b n (replaced a m nodes) = replaced a m (replaced b n nodes) := by
  simp only [replaced, List.map_map]
  refine List.map_congr_left fun entry _ => ?_
  by_cases ha : entry.1 = a
  · simp [ha, hab]
  · simp [ha]

theorem replaced_of_lookup_eq_none {a : Address} (node : Node) {nodes : List Change}
    (h : nodes.lookup a = none) : replaced a node nodes = nodes := by
  refine (List.map_congr_left fun entry hentry => ?_).trans (List.map_id nodes)
  have hne : a ≠ entry.1 := by simpa using List.lookup_eq_none_iff.mp h entry hentry
  simp [Ne.symm hne]

/-- The second of two nodes at one address counts. -/
theorem set_set {d : Disk} {a : Address} (ha : a ≠ []) (m n : Node) :
    (d.set a m).set a n = d.set a n := by
  have hthere : ((d.set a m).find a).isSome = true := by simp [find_set ha]
  rw [set_of_some n ha hthere]
  cases hfind : d.find a with
  | none =>
    rw [set_of_none m hfind, set_of_none n hfind]
    rw [find_eq_lookup d ha] at hfind
    have hold : replaced a n d.nodes = d.nodes := replaced_of_lookup_eq_none n hfind
    simp only [replaced, List.map_append] at hold ⊢
    rw [hold]
    simp
  | some _ =>
    rw [set_of_some m ha (by simp [hfind]), set_of_some n ha (by simp [hfind]), replaced_replaced]

/-- Nodes at two addresses may be put in either order, if the second address is taken already. -/
theorem set_comm {d : Disk} {a b : Address} (ha : a ≠ []) (hb : b ≠ []) (hab : a ≠ b)
    (hthere : (d.find b).isSome = true) (m n : Node) :
    (d.set a m).set b n = (d.set b n).set a m := by
  have hthere' : ((d.set a m).find b).isSome = true := by
    rw [find_set ha, if_neg (Ne.symm hab)]
    exact hthere
  have hsame : (d.set b n).find a = d.find a := by rw [find_set hb, if_neg hab]
  rw [set_of_some n hb hthere', set_of_some n hb hthere] at *
  cases hfind : d.find a with
  | none =>
    rw [set_of_none m hfind, set_of_none m (hsame.trans hfind)]
    simp [replaced, hab]
  | some _ =>
    rw [set_of_some m ha (by simp [hfind]), set_of_some m ha (by simp [hsame, hfind]),
      replaced_comm hab]

/-! ### Later disks -/

/-- Where the one disk has a directory or a file, the other has one too. What files hold may
differ. -/
structure Extends (d e : Disk) : Prop where
  current : e.current = d.current
  directory : ∀ {a}, d.find a = some .directory → e.find a = some .directory
  file : ∀ {a c}, d.find a = some (.file c) → ∃ c', e.find a = some (.file c')

instance : Preorder Disk where
  le := Extends
  le_refl _ := ⟨rfl, id, fun h => ⟨_, h⟩⟩
  le_trans _ _ _ h k :=
    ⟨k.current.trans h.current, fun ha => k.directory (h.directory ha), fun ha => by
      obtain ⟨_, ha⟩ := h.file ha
      exact k.file ha⟩

theorem le_set_directory {d : Disk} {a : Address} (hfree : d.find a = none) :
    d ≤ d.set a .directory := by
  have ha : a ≠ [] := ne_nil_of_free hfree
  have hold : ∀ {b}, d.find b ≠ none → (d.set a .directory).find b = d.find b := by
    intro b hb
    rw [find_set ha, if_neg]
    rintro rfl
    exact hb hfree
  refine ⟨current_set d a _, fun hb => ?_, fun {b c} hb => ⟨c, ?_⟩⟩
  · rw [hold (by simp [hb]), hb]
  · rw [hold (by simp [hb]), hb]

theorem le_set_file {d : Disk} {a : Address} (hfree : d.find a ≠ some .directory) (c : Content) :
    d ≤ d.set a (.file c) := by
  have ha : a ≠ [] := ne_nil_of_find hfree
  refine ⟨current_set d a _, fun hb => ?_, fun {b c'} hb => ?_⟩
  · rw [find_set ha, if_neg, hb]
    rintro rfl
    exact hfree hb
  · rw [find_set ha]
    split
    · exact ⟨c, rfl⟩
    · exact ⟨c', hb⟩

/-! ### Changes -/

/-- `e` comes out of `d` by changes. Each makes a directory where nothing is, or writes a file where
no directory is. -/
inductive Yields (d : Disk) : List Change → Disk → Prop
  | start : Yields d [] d
  | directory {changes e a} (h : Yields d changes e) (hfree : e.find a = none) :
    Yields d (changes ++ [(a, .directory)]) (e.set a .directory)
  | file {changes e a} (h : Yields d changes e) (hfree : e.find a ≠ some .directory) (c : Content) :
    Yields d (changes ++ [(a, .file c)]) (e.set a (.file c))

namespace Yields

variable {d e f : Disk} {before after changes : List Change}

theorem trans (h : d.Yields before e) (k : e.Yields after f) : d.Yields (before ++ after) f := by
  induction k with
  | start => rwa [List.append_nil]
  | directory _ hfree ih => exact List.append_assoc .. ▸ ih.directory hfree
  | file _ hfree c ih => exact List.append_assoc .. ▸ ih.file hfree c

theorem le (h : d.Yields changes e) : d ≤ e := by
  induction h with
  | start => exact le_rfl
  | directory _ hfree ih => exact ih.trans (le_set_directory hfree)
  | file _ hfree c ih => exact ih.trans (le_set_file hfree c)

/-- The last change at an address counts; what is not changed stays. -/
theorem find (h : d.Yields changes e) (b : Address) :
    e.find b = (changes.reverse.lookup b).or (d.find b) := by
  have hstep : ∀ {e : Disk} {changes : List Change} {a : Address} (node : Node), a ≠ [] →
      e.find b = (changes.reverse.lookup b).or (d.find b) →
      (e.set a node).find b = ((changes ++ [(a, node)]).reverse.lookup b).or (d.find b) := by
    intro e changes a node ha ih
    rw [find_set ha, List.reverse_append, List.reverse_singleton, List.singleton_append,
      List.lookup_cons]
    by_cases hb : b = a
    · simp [hb]
    · have hne : (b == a) = false := beq_false_of_ne hb
      rw [if_neg hb, hne, ih]
  induction h with
  | start => rfl
  | directory _ hfree ih => exact hstep _ (ne_nil_of_free hfree) ih
  | file _ hfree c ih => exact hstep _ (ne_nil_of_find hfree) ih

end Yields

/-! ### Writing again -/

/-- The files of changes, written again in their order. The directories are there. -/
def rewrite (d : Disk) : List Change → Disk
  | [] => d
  | (_, .directory) :: rest => d.rewrite rest
  | (a, .file c) :: rest => (d.set a (.file c)).rewrite rest

/-- Every file of the changes is there already, with whatever content. -/
def Covers (d : Disk) (changes : List Change) : Prop :=
  ∀ a c, (a, .file c) ∈ changes → ∃ c', d.find a = some (.file c')

section Rewrite

variable {d e : Disk} {a : Address} {changes before after : List Change}

theorem rewrite_append (d : Disk) (before after : List Change) :
    d.rewrite (before ++ after) = (d.rewrite before).rewrite after := by
  induction before generalizing d with
  | nil => rfl
  | cons change rest ih =>
    obtain ⟨a, node⟩ := change
    cases node with
    | directory => exact ih d
    | file c => exact ih _

theorem Covers.mono (h : d.Covers changes) (hle : d ≤ e) : e.Covers changes := by
  intro a c hmem
  obtain ⟨_, hfind⟩ := h a c hmem
  exact hle.file hfind

theorem Covers.tail {change : Change} (h : d.Covers (change :: changes)) : d.Covers changes :=
  fun a c hmem => h a c (List.mem_cons_of_mem _ hmem)

theorem le_set_of_covers {c : Content} (h : d.Covers ((a, .file c) :: changes)) :
    d ≤ d.set a (.file c) := by
  obtain ⟨_, hfind⟩ := h a c (List.mem_cons_self ..)
  exact le_set_file (by simp [hfind]) c

theorem le_rewrite (h : d.Covers changes) : d ≤ d.rewrite changes := by
  induction changes generalizing d with
  | nil => exact le_rfl
  | cons change rest ih =>
    obtain ⟨b, node⟩ := change
    cases node with
    | directory => exact ih h.tail
    | file c =>
      have hle := le_set_of_covers h
      exact hle.trans (ih (h.tail.mono hle))

/-- A node at an address that is not written again may be put there before or after. -/
theorem rewrite_set (ha : a ≠ []) (node : Node) (h : d.Covers changes)
    (hne : ∀ c, (a, .file c) ∉ changes) :
    (d.set a node).rewrite changes = (d.rewrite changes).set a node := by
  induction changes generalizing d with
  | nil => rfl
  | cons change rest ih =>
    obtain ⟨b, written⟩ := change
    have hrest : ∀ c, (a, .file c) ∉ rest := fun c hmem => hne c (List.mem_cons_of_mem _ hmem)
    cases written with
    | directory => exact ih h.tail hrest
    | file c =>
      obtain ⟨_, hfind⟩ := h b c (List.mem_cons_self ..)
      have hab : a ≠ b := by
        rintro rfl
        exact hne c (List.mem_cons_self ..)
      rw [rewrite, rewrite, set_comm ha (ne_nil_of_file hfind) hab (by simp [hfind])]
      exact ih (h.tail.mono (le_set_of_covers h)) hrest

/-- What is put at an address before files are written again does not matter, when something is put
there afterwards. -/
theorem set_rewrite_set (ha : a ≠ []) (m n : Node) (h : d.Covers changes) :
    ((d.set a m).rewrite changes).set a n = (d.rewrite changes).set a n := by
  induction changes generalizing d with
  | nil => exact set_set ha m n
  | cons change rest ih =>
    obtain ⟨b, written⟩ := change
    cases written with
    | directory => exact ih h.tail
    | file c =>
      have hle := le_set_of_covers h
      by_cases hab : a = b
      · subst hab
        rw [rewrite, rewrite, set_set ha]
      · obtain ⟨_, hfind⟩ := h b c (List.mem_cons_self ..)
        rw [rewrite, rewrite, set_comm ha (ne_nil_of_file hfind) hab (by simp [hfind])]
        exact ih (h.tail.mono hle)

theorem Yields.covers (h : d.Yields changes e) : e.Covers changes := by
  induction h with
  | start => exact fun a c hmem => nomatch hmem
  | directory _ hfree ih =>
    intro b c hmem
    rcases List.mem_append.mp hmem with hmem | hmem
    · exact ih.mono (le_set_directory hfree) b c hmem
    · nomatch List.mem_singleton.mp hmem
  | @file _ e a _ hfree c ih =>
    intro b c' hmem
    rcases List.mem_append.mp hmem with hmem | hmem
    · exact ih.mono (le_set_file hfree c) b c' hmem
    · obtain ⟨rfl, _⟩ := Prod.mk.inj (List.mem_singleton.mp hmem)
      exact ⟨c, by rw [find_set (ne_nil_of_find hfree), if_pos rfl]⟩

/-- Writing the files of the changes again changes nothing. -/
theorem Yields.rewrite_eq (h : d.Yields changes e) : e.rewrite changes = e := by
  induction h with
  | start => rfl
  | @directory changes e a h hfree ih =>
    have ha : a ≠ [] := ne_nil_of_free hfree
    have hne : ∀ c, (a, .file c) ∉ changes := by
      intro c hmem
      obtain ⟨_, hfind⟩ := h.covers a c hmem
      nomatch hfree.symm.trans hfind
    calc (e.set a .directory).rewrite (changes ++ [(a, .directory)])
      _ = (e.set a .directory).rewrite changes := rewrite_append ..
      _ = (e.rewrite changes).set a .directory := rewrite_set ha _ h.covers hne
      _ = e.set a .directory := by rw [ih]
  | @file changes e a h hfree c ih =>
    have ha : a ≠ [] := ne_nil_of_find hfree
    calc (e.set a (.file c)).rewrite (changes ++ [(a, .file c)])
      _ = ((e.set a (.file c)).rewrite changes).set a (.file c) := rewrite_append ..
      _ = (e.rewrite changes).set a (.file c) := set_rewrite_set ha _ _ h.covers
      _ = e.set a (.file c) := by rw [ih]

end Rewrite

end Disk

end TypedClient.Files
