import Mathlib.Data.List.Forall2
import Mathlib.Data.List.Induction
import TypedClient.Document.Reader
import TypedClient.Proofs.Sequences

/-! Where the keys of a path item go. A key that names a method adds an operation, `parameters` sets the
shared parameters, and any other key is noted. No entry is lost or counted twice, and what the entries
of one sort add up to keeps their order, also across the paths of a document. -/

namespace TypedClient

open Document Json Tree Route

namespace Route.Method

variable {m m' : Method} {key : String}

/-- Whether a key names a method, in letters of either case. -/
def IsNamed (m : Method) (key : String) : Prop := key.toLower = m.lower

theorem isNamed_iff : m.IsNamed key ↔ m.lower.toList = key.toList.map Char.toLower := by
  have hlower : key.toLower.toList = key.toList.map Char.toLower := String.toList_map
  rw [IsNamed, ← String.toList_inj, hlower, eq_comm]

theorem IsNamed.unique (h : m.IsNamed key) (h' : m'.IsNamed key) : m = m' := by
  have hlower : m.lower = m'.lower := h.symm.trans h'
  cases m <;> cases m' <;> first | rfl | exact absurd hlower (by decide)

theorem ofKey?_eq_some_iff : ofKey? key = some m ↔ m.IsNamed key := by
  have hsound : ∀ {m : Method}, ofKey? key = some m → m.IsNamed key := by
    intro m h
    have hbeq := List.find?_some h
    exact isNamed_iff.mpr (eq_of_beq hbeq)
  refine ⟨hsound, fun h => ?_⟩
  have hmem : m ∈ all := by cases m <;> decide
  obtain ⟨found, hfound⟩ : ∃ found, ofKey? key = some found :=
    Option.isSome_iff_exists.mp (List.find?_isSome.mpr ⟨m, hmem, beq_iff_eq.mpr (isNamed_iff.mp h)⟩)
  rw [hfound, (hsound hfound).unique h]

/-- The keys that name a method. -/
def IsKey (key : String) : Prop := ∃ m : Method, m.IsNamed key

theorem isKey_iff : IsKey key ↔ (ofKey? key).isSome := by
  simp only [IsKey, Option.isSome_iff_exists, ofKey?_eq_some_iff]

instance : DecidablePred IsKey := fun _ => decidable_of_iff _ isKey_iff.symm

theorem not_isKey_parameters : ¬IsKey "parameters" := by decide

end Route.Method

/-- A closed object with readable keys. -/
def Json.Tree.ofEntries (entries : List (String × Tree)) : Tree :=
  .object (entries.map fun (key, t) => (some key.toList, t)) true

theorem Json.Tree.ofEntries_injective : Function.Injective ofEntries := by
  intro entries entries' h
  refine List.map_injective_iff.mpr ?_ (Tree.object.inj h).1
  rintro ⟨key, t⟩ ⟨key', t'⟩ heq
  obtain ⟨hkey, rfl⟩ := Prod.mk.inj heq
  rw [String.toList_inj.mp (Option.some.inj hkey)]

theorem Json.Tree.key?_eq_ok_iff {key : Text} {name : String} :
    key? key = .ok name ↔ key = some name.toList := by
  cases key with
  | none => simp [key?]
  | some cs => simp [key?, ← String.toList_inj]

/-- A list that corresponds to one with an item at its end has a counterpart of that item at its own. -/
theorem forall₂_concat_iff {α β : Type} {R : α → β → Prop} {front : List α} {a : α} {all : List β} :
    List.Forall₂ R (front ++ [a]) all ↔
      ∃ before b, List.Forall₂ R front before ∧ R a b ∧ all = before ++ [b] := by
  constructor
  · intro h
    induction front generalizing all with
    | nil =>
      obtain ⟨b, rest, hb, hrest, rfl⟩ := List.forall₂_cons_left_iff.mp h
      obtain rfl := List.forall₂_nil_left_iff.mp hrest
      exact ⟨[], b, .nil, hb, rfl⟩
    | cons first front ih =>
      obtain ⟨c, rest, hc, hrest, rfl⟩ := List.forall₂_cons_left_iff.mp h
      obtain ⟨before, b, hbefore, hb, rfl⟩ := ih hrest
      exact ⟨c :: before, b, .cons hc hbefore, hb, rfl⟩
  · rintro ⟨before, b, hbefore, hb, rfl⟩
    exact List.rel_append hbefore (.cons hb .nil)

namespace Document

/-! ### The sorts of entries -/

section Entries

variable (entries : List (String × Tree))

/-- The entries whose keys name methods. -/
def operationEntries : List (String × Tree) := entries.filter fun entry => Method.IsKey entry.1

/-- The entries with shared parameters. -/
def sharedEntries : List (String × Tree) := entries.filter fun entry => entry.1 = "parameters"

/-- The entries with any other key. -/
def otherEntries : List (String × Tree) :=
  entries.filter fun entry => ¬Method.IsKey entry.1 ∧ entry.1 ≠ "parameters"

/-- Each entry is of one sort. -/
theorem sorts_perm :
    (operationEntries entries ++ (sharedEntries entries ++ otherEntries entries)).Perm entries := by
  have hrest : (sharedEntries entries ++ otherEntries entries).Perm
      (entries.filter fun entry => !decide (Method.IsKey entry.1)) := by
    have hshared : sharedEntries entries =
        (entries.filter fun entry => !decide (Method.IsKey entry.1)).filter
          fun entry => entry.1 = "parameters" := by
      rw [sharedEntries, List.filter_filter]
      refine List.filter_congr fun entry _ => ?_
      by_cases hkey : entry.1 = "parameters"
      · simp [hkey, Method.not_isKey_parameters]
      · simp [hkey]
    have hother : otherEntries entries =
        (entries.filter fun entry => !decide (Method.IsKey entry.1)).filter
          fun entry => !decide (entry.1 = "parameters") := by
      rw [otherEntries, List.filter_filter]
      refine List.filter_congr fun entry _ => ?_
      simp [and_comm]
    rw [hshared, hother]
    exact List.filter_append_perm ..
  exact (hrest.append_left _).trans (List.filter_append_perm ..)

end Entries

/-! ### One path item -/

/-- What an entry adds to the operations: its value, under the method that its key names. -/
def ReadsOperation (room : Nat) (entry : String × Tree) (op : Method × Operation) : Prop :=
  op.1.IsNamed entry.1 ∧ Operation.ofTree room entry.2 = .ok op.2

/-- What a path item takes from the entries of its object: an operation from each entry that names a
method, the keys of the others, and of all shared parameters those that come last. -/
structure PathItem.Sorts (room : Nat) (entries : List (String × Tree)) (item : PathItem) : Prop where
  operations : List.Forall₂ (ReadsOperation room) (operationEntries entries) item.operations
  ignoredKeys : item.ignoredKeys = (otherEntries entries).map Prod.fst
  parameters : ∃ lists,
    List.Forall₂ (fun entry parameters => list Parameter.ofTree room entry.2 = .ok parameters)
      (sharedEntries entries) lists ∧
    item.parameters = lists.getLastD []

variable {room : Nat} {entries : List (String × Tree)} {item : PathItem} {key : String} {t : Tree}

theorem sorts_nil_iff : item.Sorts room [] ↔ item = ⟨[], [], []⟩ := by
  constructor
  · rintro ⟨hoperations, hignored, lists, hlists, hparameters⟩
    obtain rfl := List.forall₂_nil_left_iff.mp hlists
    obtain ⟨parameters, operations, ignored⟩ := item
    obtain rfl : operations = [] := List.forall₂_nil_left_iff.mp hoperations
    obtain rfl : ignored = [] := hignored
    obtain rfl : parameters = [] := hparameters
    rfl
  · rintro rfl
    exact ⟨.nil, rfl, [], .nil, rfl⟩

/-! What one more entry adds, by its key. -/

theorem add_parameters {before : PathItem} :
    before.add room "parameters" t = .ok item ↔
      ∃ parameters, list Parameter.ofTree room t = .ok parameters ∧
        item = { before with parameters := parameters } := by
  simp only [PathItem.add, if_true, bind_eq_ok, pure, Except.pure, Except.ok.injEq, @eq_comm _ item]

theorem add_operation {before : PathItem} {method : Method} (h : method.IsNamed key) :
    before.add room key t = .ok item ↔
      ∃ op, Operation.ofTree room t = .ok op ∧
        item = { before with operations := before.operations ++ [(method, op)] } := by
  have hkey : key ≠ "parameters" := by
    rintro rfl
    exact Method.not_isKey_parameters ⟨method, h⟩
  simp only [PathItem.add, if_neg hkey, Method.ofKey?_eq_some_iff.mpr h, bind_eq_ok, pure, Except.pure,
    Except.ok.injEq, @eq_comm _ item]

theorem add_other {before : PathItem} (hparameters : key ≠ "parameters") (hkey : ¬Method.IsKey key) :
    before.add room key t = .ok item ↔ item = { before with ignoredKeys := before.ignoredKeys ++ [key] } := by
  have hmethod : Method.ofKey? key = none := by simpa [Method.isKey_iff] using hkey
  simp only [PathItem.add, if_neg hparameters, hmethod, pure, Except.pure, Except.ok.injEq, @eq_comm _ item]

theorem sorts_concat_parameters : item.Sorts room (entries ++ [("parameters", t)]) ↔
    ∃ before : PathItem, before.Sorts room entries ∧ before.add room "parameters" t = .ok item := by
  have hoperations : operationEntries (entries ++ [("parameters", t)]) = operationEntries entries := by
    simp [operationEntries, Method.not_isKey_parameters]
  have hshared : sharedEntries (entries ++ [("parameters", t)]) =
      sharedEntries entries ++ [("parameters", t)] := by
    simp [sharedEntries]
  have hother : otherEntries (entries ++ [("parameters", t)]) = otherEntries entries := by
    simp [otherEntries]
  simp only [add_parameters]
  constructor
  · rintro ⟨hops, hignored, lists, hlists, hlast⟩
    obtain ⟨earlier, parameters, hearlier, hread, rfl⟩ := forall₂_concat_iff.mp (hshared ▸ hlists)
    rw [List.getLastD_concat] at hlast
    exact ⟨{ item with parameters := earlier.getLastD [] },
      ⟨hoperations ▸ hops, hother ▸ hignored, earlier, hearlier, rfl⟩, parameters, hread, by rw [← hlast]⟩
  · rintro ⟨before, ⟨hops, hignored, earlier, hearlier, -⟩, parameters, hread, rfl⟩
    exact ⟨hoperations ▸ hops, hother ▸ hignored, earlier ++ [parameters],
      hshared ▸ forall₂_concat_iff.mpr ⟨earlier, parameters, hearlier, hread, rfl⟩,
      (List.getLastD_concat ..).symm⟩

theorem sorts_concat_operation (h : Method.IsKey key) : item.Sorts room (entries ++ [(key, t)]) ↔
    ∃ before : PathItem, before.Sorts room entries ∧ before.add room key t = .ok item := by
  have hkey : key ≠ "parameters" := by
    rintro rfl
    exact Method.not_isKey_parameters h
  have hoperations : operationEntries (entries ++ [(key, t)]) = operationEntries entries ++ [(key, t)] := by
    simp [operationEntries, h]
  have hshared : sharedEntries (entries ++ [(key, t)]) = sharedEntries entries := by
    simp [sharedEntries, hkey]
  have hother : otherEntries (entries ++ [(key, t)]) = otherEntries entries := by simp [otherEntries, h]
  constructor
  · rintro ⟨hops, hignored, lists, hlists, hlast⟩
    obtain ⟨earlier, ⟨method, op⟩, hearlier, ⟨hnamed, hread⟩, hlistsall⟩ :=
      forall₂_concat_iff.mp (hoperations ▸ hops)
    exact ⟨{ item with operations := earlier },
      ⟨hearlier, hother ▸ hignored, lists, hshared ▸ hlists, hlast⟩,
      (add_operation hnamed).mpr ⟨op, hread, by rw [← hlistsall]⟩⟩
  · rintro ⟨before, ⟨hops, hignored, lists, hlists, hlast⟩, hadd⟩
    obtain ⟨method, hnamed⟩ := h
    obtain ⟨op, hread, rfl⟩ := (add_operation hnamed).mp hadd
    exact ⟨hoperations ▸ forall₂_concat_iff.mpr ⟨before.operations, (method, op), hops, ⟨hnamed, hread⟩, rfl⟩,
      hother ▸ hignored, lists, hshared ▸ hlists, hlast⟩

theorem sorts_concat_other (hparameters : key ≠ "parameters") (hkey : ¬Method.IsKey key) :
    item.Sorts room (entries ++ [(key, t)]) ↔
      ∃ before : PathItem, before.Sorts room entries ∧ before.add room key t = .ok item := by
  have hoperations : operationEntries (entries ++ [(key, t)]) = operationEntries entries := by
    simp [operationEntries, hkey]
  have hshared : sharedEntries (entries ++ [(key, t)]) = sharedEntries entries := by
    simp [sharedEntries, hparameters]
  have hother : otherEntries (entries ++ [(key, t)]) = otherEntries entries ++ [(key, t)] := by
    simp [otherEntries, hparameters, hkey]
  simp only [add_other hparameters hkey]
  constructor
  · rintro ⟨hops, hignored, lists, hlists, hlast⟩
    rw [hother, List.map_append] at hignored
    exact ⟨{ item with ignoredKeys := (otherEntries entries).map Prod.fst },
      ⟨hoperations ▸ hops, rfl, lists, hshared ▸ hlists, hlast⟩, congrArg (PathItem.mk _ _) hignored⟩
  · rintro ⟨before, ⟨hops, hignored, lists, hlists, hlast⟩, rfl⟩
    refine ⟨hoperations ▸ hops, ?_, lists, hshared ▸ hlists, hlast⟩
    rw [hother, List.map_append, hignored]
    rfl

/-- One more entry is sorted by adding it. -/
theorem sorts_concat_iff : item.Sorts room (entries ++ [(key, t)]) ↔
    ∃ before : PathItem, before.Sorts room entries ∧ before.add room key t = .ok item := by
  by_cases hparameters : key = "parameters"
  · subst hparameters
    exact sorts_concat_parameters
  by_cases hkey : Method.IsKey key
  · exact sorts_concat_operation hkey
  · exact sorts_concat_other hparameters hkey

/-- A path item is read from its object exactly as the entries are sorted. -/
theorem foldlM_add_eq_ok_iff {raw : List (Text × Tree)} :
    raw.foldlM (fun before (key, t) => do PathItem.add room before (← key? key) t) ⟨[], [], []⟩ =
        .ok item ↔
      ∃ entries : List (String × Tree),
        raw = entries.map (fun (key, t) => (some key.toList, t)) ∧ item.Sorts room entries := by
  induction raw using List.reverseRecOn generalizing item with
  | nil =>
    constructor
    · intro h
      exact ⟨[], rfl, sorts_nil_iff.mpr (Except.ok.inj h).symm⟩
    · rintro ⟨entries, hraw, hsorts⟩
      obtain rfl := List.map_eq_nil_iff.mp hraw.symm
      rw [sorts_nil_iff.mp hsorts]
      rfl
  | append_singleton raw entry ih =>
    obtain ⟨key, t⟩ := entry
    simp only [List.foldlM_append, List.foldlM_cons, List.foldlM_nil, bind_eq_ok, key?_eq_ok_iff]
    constructor
    · rintro ⟨before, hbefore, after, ⟨name, rfl, hadd⟩, hitem⟩
      obtain rfl := Except.ok.inj hitem
      obtain ⟨entries, rfl, hsorts⟩ := ih.mp hbefore
      exact ⟨entries ++ [(name, t)], by simp, sorts_concat_iff.mpr ⟨before, hsorts, hadd⟩⟩
    · rintro ⟨entries, hraw, hsorts⟩
      obtain ⟨front, back, rfl, rfl, hback⟩ := List.append_eq_map_iff.mp hraw
      obtain ⟨⟨name, t'⟩, rfl, hlast⟩ := List.map_eq_singleton_iff.mp hback
      obtain ⟨rfl, rfl⟩ := Prod.mk.inj hlast
      obtain ⟨before, hbefore, hadd⟩ := sorts_concat_iff.mp hsorts
      exact ⟨before, ih.mpr ⟨front, rfl, hbefore⟩, item, ⟨name, rfl, hadd⟩, rfl⟩

theorem ofTree_eq_ok_iff : PathItem.ofTree room t = .ok item ↔
    ∃ inner entries, room = inner + 1 ∧ t = .ofEntries entries ∧ item.Sorts inner entries := by
  constructor
  · intro h
    cases t with
    | object raw closed =>
      cases room with
      | zero => nomatch h
      | succ inner =>
        obtain ⟨final, hfinal, hclosed⟩ := bind_eq_ok.mp h
        cases closed with
        | false => nomatch hclosed
        | true =>
          obtain rfl := Except.ok.inj hclosed
          obtain ⟨entries, rfl, hsorts⟩ := foldlM_add_eq_ok_iff.mp hfinal
          exact ⟨inner, entries, rfl, rfl, hsorts⟩
    | _ => nomatch h
  · rintro ⟨inner, entries, rfl, rfl, hsorts⟩
    exact bind_eq_ok.mpr ⟨item, foldlM_add_eq_ok_iff.mpr ⟨entries, rfl, hsorts⟩, rfl⟩

/-! ### All paths -/

/-- An endpoint that comes from an entry of the object of a path. -/
def Endpoint.Reads (room : Nat) (source : (String × List (String × Tree)) × String × Tree)
    (e : Endpoint) : Prop :=
  e.path = source.1.1 ∧ PathItem.ofTree (room + 1) (.ofEntries source.1.2) = .ok e.item ∧
    ReadsOperation room source.2 (e.method, e.operation)

theorem endpoints_of_objects {d : Document} {objects : List (String × List (String × Tree))}
    (h : List.Forall₂ (fun object path =>
      path.1 = object.1 ∧ PathItem.ofTree (room + 1) (.ofEntries object.2) = .ok path.2) objects d.paths) :
    List.Forall₂ (Endpoint.Reads room)
      (objects.flatMap fun object => (operationEntries object.2).map fun entry => (object, entry))
      d.endpoints := by
  refine List.rel_flatMap h ?_
  rintro ⟨path, entries⟩ ⟨_, item⟩ ⟨rfl, hread⟩
  obtain ⟨inner, entries', hroom, hentries, hsorts⟩ := ofTree_eq_ok_iff.mp hread
  obtain rfl := Nat.succ.inj hroom
  obtain rfl := ofEntries_injective hentries
  rw [List.forall₂_map_left_iff, List.forall₂_map_right_iff]
  exact hsorts.operations.imp fun _ _ hop => ⟨rfl, hread, hop⟩

end Document

/-- The keys of a path item are sorted: each entry of its object is of one sort, an object is accepted
exactly when its entries can be sorted, and then the path item is what they add up to. The endpoints of
a document are the entries that name methods, path by path. -/
theorem pathItem_keys_sorted (room : Nat) :
    (∀ entries : List (String × Tree),
      (operationEntries entries ++ (sharedEntries entries ++ otherEntries entries)).Perm entries) ∧
    (∀ t item, PathItem.ofTree room t = .ok item ↔
      ∃ inner entries, room = inner + 1 ∧ t = .ofEntries entries ∧ item.Sorts inner entries) ∧
    (∀ (d : Document) (objects : List (String × List (String × Tree))),
      List.Forall₂ (fun object path =>
        path.1 = object.1 ∧ PathItem.ofTree (room + 1) (.ofEntries object.2) = .ok path.2)
        objects d.paths →
      List.Forall₂ (Endpoint.Reads room)
        (objects.flatMap fun object => (operationEntries object.2).map fun entry => (object, entry))
        d.endpoints) :=
  ⟨sorts_perm, fun _ _ => ofTree_eq_ok_iff, fun _ _ => endpoints_of_objects⟩

/-- An object that names one method twice, in letters of either case. -/
def repeatedEntries : List (String × Tree) :=
  [("GET", .object [] true), ("x-note", .null), ("parameters", .array [] true),
    ("get", .object [(some "summary".toList, .string (some "Pets".toList))] true)]

def repeatedItem : PathItem :=
  { parameters := []
    operations := [(.get, .empty), (.get, { Operation.empty with summary := some "Pets" })]
    ignoredKeys := ["x-note"] }

def repeatedDocument : Document := { Document.empty with paths := [("/pets", repeatedItem)] }

theorem repeatedDocument_endpoints :
    PathItem.ofTree 3 (.ofEntries repeatedEntries) = .ok repeatedItem ∧
      List.Forall₂ (Endpoint.Reads 2)
        ((operationEntries repeatedEntries).map fun entry => (("/pets", repeatedEntries), entry))
        repeatedDocument.endpoints := by
  have hread : PathItem.ofTree 3 (.ofEntries repeatedEntries) = .ok repeatedItem := rfl
  exact ⟨hread, (pathItem_keys_sorted 2).2.2 repeatedDocument [("/pets", repeatedEntries)]
    (.cons ⟨rfl, hread⟩ .nil)⟩

end TypedClient
