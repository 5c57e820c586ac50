import TypedClient.Proofs.DocumentKeys

/-! How a structure is read from an object. Only the entries with known keys count, each of which may
come once, and each sets what its key stands for. Where keys do not get in each other's way, the order
of the entries does not matter, and neither does a `null` for a key that is absent when it stands for
what the start has anyway. -/

namespace TypedClient.Json.Tree

/-- The entries with known keys. -/
def known (keys : List String) (entries : List (Text × Tree)) : List (String × Tree) :=
  entries.filterMap fun entry =>
    entry.1.bind fun cs => if String.ofList cs ∈ keys then some (String.ofList cs, entry.2) else none

section Known

variable {keys : List String} {cs : List Char} {t : Tree} {entries : List (Text × Tree)}

theorem known_cons_of_mem (h : String.ofList cs ∈ keys) :
    known keys ((some cs, t) :: entries) = (String.ofList cs, t) :: known keys entries := by
  simp [known, h]

theorem known_cons_of_notMem (h : String.ofList cs ∉ keys) :
    known keys ((some cs, t) :: entries) = known keys entries := by
  simp [known, h]

theorem known_append (keys : List String) (front back : List (Text × Tree)) :
    known keys (front ++ back) = known keys front ++ known keys back := List.filterMap_append ..

theorem mem_known {entry : String × Tree} (h : entry ∈ known keys entries) :
    entry.1 ∈ keys ∧ (some entry.1.toList, entry.2) ∈ entries := by
  obtain ⟨⟨key, t⟩, hmem, hentry⟩ := List.mem_filterMap.mp h
  obtain ⟨cs, rfl, hentry⟩ := Option.bind_eq_some_iff.mp hentry
  split at hentry
  · next hkey =>
    obtain rfl := Option.some.inj hentry
    exact ⟨hkey, by simpa using hmem⟩
  · nomatch hentry

end Known

/-! ### Places in a list -/

section Replace

variable {α β σ : Type} {a a' : α} {front back : List α}

theorem mapM_replace {f : α → Decoded β} {values : List β}
    (h : (front ++ a :: back).mapM f = .ok values) (hf : ∀ b, f a = .ok b → f a' = .ok b) :
    (front ++ a' :: back).mapM f = .ok values := by
  simp only [List.mapM_append, List.mapM_cons, bind_eq_ok] at h ⊢
  obtain ⟨before, hbefore, after, ⟨b, hb, rest, hrest, hafter⟩, hvalues⟩ := h
  exact ⟨before, hbefore, after, ⟨b, hf b hb, rest, hrest, hafter⟩, hvalues⟩

theorem foldlM_replace {f : σ → α → Decoded σ} {s final : σ}
    (h : (front ++ a :: back).foldlM f s = .ok final)
    (hf : ∀ s s', f s a = .ok s' → f s a' = .ok s') :
    (front ++ a' :: back).foldlM f s = .ok final := by
  simp only [List.foldlM_append, List.foldlM_cons, bind_eq_ok] at h ⊢
  obtain ⟨before, hbefore, next, hnext, hrest⟩ := h
  exact ⟨before, hbefore, next, hf before next hnext, hrest⟩

end Replace

theorem foldEntries_replace {σ : Type} {step : σ → String → Tree → Decoded σ} {s final : σ}
    {front back : List (Text × Tree)} {cs : List Char} {t t' : Tree} {closed : Bool}
    (h : foldEntries step s (front ++ (some cs, t) :: back) closed = .ok final)
    (hstep : ∀ s s', step s (String.ofList cs) t = .ok s' → step s (String.ofList cs) t' = .ok s') :
    foldEntries step s (front ++ (some cs, t') :: back) closed = .ok final := by
  obtain ⟨last, hlast, hclosed⟩ := bind_eq_ok.mp h
  exact bind_eq_ok.mpr ⟨last, foldlM_replace hlast hstep, hclosed⟩

/-! ### Structures -/

section Record

variable {σ : Type} {keys : List String} {set : σ → String → Tree → Decoded σ} {start s s' : σ}
  {entries entries' front back : List (Text × Tree)} {name : String} {t t' : Tree}

/-- Entries from which a structure can be read: their keys can, no known key comes twice, and what the
known entries stand for can be set, one after the other. -/
structure ReadsAs (keys : List String) (set : σ → String → Tree → Decoded σ) (start : σ)
    (entries : List (Text × Tree)) (final : σ) : Prop where
  readable : ∀ entry ∈ entries, entry.1 ≠ none
  distinct : ((known keys entries).map Prod.fst).Nodup
  run : (known keys entries).foldlM (fun s entry => set s entry.1 entry.2) start = .ok final

theorem readsAs_nil : ReadsAs keys set s [] s' ↔ s = s' :=
  ⟨fun h => Except.ok.inj h.run, fun h => ⟨nofun, List.nodup_nil, h ▸ rfl⟩⟩

theorem readsAs_cons_of_notMem {cs : List Char} (h : String.ofList cs ∉ keys) :
    ReadsAs keys set s ((some cs, t) :: entries) s' ↔ ReadsAs keys set s entries s' := by
  have hknown : known keys ((some cs, t) :: entries) = known keys entries := known_cons_of_notMem h
  constructor
  · rintro ⟨hreadable, hdistinct, hrun⟩
    rw [hknown] at hdistinct hrun
    exact ⟨fun entry hentry => hreadable entry (List.mem_cons_of_mem _ hentry), hdistinct, hrun⟩
  · rintro ⟨hreadable, hdistinct, hrun⟩
    rw [← hknown] at hdistinct hrun
    exact ⟨List.forall_mem_cons.mpr ⟨nofun, hreadable⟩, hdistinct, hrun⟩

theorem readsAs_cons_of_mem {cs : List Char} (h : String.ofList cs ∈ keys) :
    ReadsAs keys set s ((some cs, t) :: entries) s' ↔
      (∀ entry ∈ known keys entries, entry.1 ≠ String.ofList cs) ∧
      ∃ next, set s (String.ofList cs) t = .ok next ∧ ReadsAs keys set next entries s' := by
  have hknown : known keys ((some cs, t) :: entries) = (String.ofList cs, t) :: known keys entries :=
    known_cons_of_mem h
  constructor
  · rintro ⟨hreadable, hdistinct, hrun⟩
    rw [hknown, List.map_cons, List.nodup_cons] at hdistinct
    rw [hknown, List.foldlM_cons, bind_eq_ok] at hrun
    obtain ⟨next, hnext, hrun⟩ := hrun
    refine ⟨fun entry hentry hname => hdistinct.1 (List.mem_map.mpr ⟨entry, hentry, hname⟩), next, hnext,
      fun entry hentry => hreadable entry (List.mem_cons_of_mem _ hentry), hdistinct.2, hrun⟩
  · rintro ⟨hnew, next, hnext, hreadable, hdistinct, hrun⟩
    refine ⟨List.forall_mem_cons.mpr ⟨nofun, hreadable⟩, ?_, ?_⟩
    · rw [hknown, List.map_cons, List.nodup_cons]
      refine ⟨fun hmem => ?_, hdistinct⟩
      obtain ⟨entry, hentry, hname⟩ := List.mem_map.mp hmem
      exact hnew entry hentry hname
    · rw [hknown, List.foldlM_cons, bind_eq_ok]
      exact ⟨next, hnext, hrun⟩

/-- One entry of a structure, with the known keys that came before. -/
def recordStep (keys : List String) (set : σ → String → Tree → Decoded σ) (state : σ × List String)
    (key : String) (value : Tree) : Decoded (σ × List String) :=
  if !keys.contains key then .ok state
  else if state.2.contains key then .error .mismatched
  else do return (← set state.1 key value, key :: state.2)

theorem recordStep_eq (state : σ × List String) (key : String) (value : Tree) :
    recordStep keys set state key value =
      if key ∈ keys then
        if key ∈ state.2 then .error .mismatched
        else do return (← set state.1 key value, key :: state.2)
      else .ok state := by
  by_cases hkey : key ∈ keys
  · by_cases hseen : key ∈ state.2 <;> simp [recordStep, hkey, hseen]
  · simp [recordStep, hkey]

/-- The induction is on the entries, with the known keys of those before them. -/
theorem exists_foldlM_recordStep_iff {seen : List String} :
    (∃ seen', entries.foldlM (fun state entry => do
        recordStep keys set state (← key? entry.1) entry.2) (s, seen) = .ok (s', seen')) ↔
      ReadsAs keys set s entries s' ∧ ∀ entry ∈ known keys entries, entry.1 ∉ seen := by
  induction entries generalizing s seen with
  | nil =>
    rw [readsAs_nil]
    constructor
    · rintro ⟨seen', h⟩
      exact ⟨congrArg Prod.fst (Except.ok.inj h), nofun⟩
    · rintro ⟨rfl, _⟩
      exact ⟨seen, rfl⟩
  | cons entry rest ih =>
    obtain ⟨key, t⟩ := entry
    rw [List.foldlM_cons]
    cases key with
    | none =>
      constructor
      · rintro ⟨_, h⟩
        nomatch h
      · exact fun h => absurd rfl (h.1.readable _ (List.mem_cons_self ..))
    | some cs =>
      have hstep : (do recordStep keys set (s, seen) (← key? (some cs)) t) =
          recordStep keys set (s, seen) (String.ofList cs) t := rfl
      rw [hstep, recordStep_eq]
      by_cases hkey : String.ofList cs ∈ keys
      · rw [if_pos hkey, readsAs_cons_of_mem hkey, known_cons_of_mem hkey, List.forall_mem_cons]
        by_cases hseen : String.ofList cs ∈ seen
        · rw [if_pos hseen]
          constructor
          · rintro ⟨_, h⟩
            nomatch h
          · exact fun h => absurd hseen h.2.1
        · rw [if_neg hseen]
          cases hset : set s (String.ofList cs) t with
          | error fault =>
            constructor
            · rintro ⟨_, h⟩
              nomatch h
            · rintro ⟨⟨_, _, h, _⟩, _⟩
              nomatch h
          | ok next =>
            refine Iff.trans ih ?_
            simp only [List.mem_cons, not_or]
            constructor
            · rintro ⟨hrest, hnew⟩
              exact ⟨⟨fun entry h => (hnew entry h).1, next, rfl, hrest⟩, hseen,
                fun entry h => (hnew entry h).2⟩
            · rintro ⟨⟨hnew, _, hnext, hrest⟩, _, hold⟩
              obtain rfl := Except.ok.inj hnext
              exact ⟨hrest, fun entry h => ⟨hnew entry h, hold entry h⟩⟩
      · rw [if_neg hkey, readsAs_cons_of_notMem hkey, known_cons_of_notMem hkey]
        exact ih

/-- A structure is read from an object that is closed and whose entries it can be read from, if there
is room for a bracket. -/
theorem record_object_eq_ok_iff {set : Nat → σ → String → Tree → Decoded σ} {room : Nat}
    {closed : Bool} :
    record keys set start room (.object entries closed) = .ok s ↔
      ∃ inner, room = inner + 1 ∧ closed = true ∧ ReadsAs keys (set inner) start entries s := by
  cases room with
  | zero => simp [record]
  | succ inner =>
    have hrecord : record keys set start (inner + 1) (.object entries closed) =
        (do return (← foldEntries (recordStep keys (set inner)) (start, []) entries closed).1) := rfl
    have hiff : (∃ seen', entries.foldlM (fun state entry => do
          recordStep keys (set inner) state (← key? entry.1) entry.2) (start, []) = .ok (s, seen')) ↔
        ReadsAs keys (set inner) start entries s ∧ ∀ entry ∈ known keys entries, entry.1 ∉ [] :=
      exists_foldlM_recordStep_iff
    rw [hrecord, bind_eq_ok]
    constructor
    · rintro ⟨⟨s₁, seen'⟩, hfold, hs⟩
      obtain rfl : s₁ = s := Except.ok.inj hs
      obtain ⟨final, hfold, hclosed⟩ := bind_eq_ok.mp hfold
      split at hclosed
      · next hclosed' =>
        obtain rfl := Except.ok.inj hclosed
        exact ⟨inner, rfl, hclosed', (hiff.mp ⟨seen', hfold⟩).1⟩
      · nomatch hclosed
    · rintro ⟨_, hinner, rfl, hreads⟩
      obtain rfl := Nat.succ.inj hinner
      obtain ⟨seen', hfold⟩ := hiff.mpr ⟨hreads, fun _ _ => List.not_mem_nil⟩
      exact ⟨(s, seen'), bind_eq_ok.mpr ⟨_, hfold, rfl⟩, rfl⟩

/-- A structure is read from an array whose items stand for the keys in their order. -/
theorem record_array_eq_ok_iff {set : Nat → σ → String → Tree → Decoded σ} {room : Nat}
    {items : List Tree} {closed : Bool} :
    record keys set start room (.array items closed) = .ok s ↔
      ∃ inner, room = inner + 1 ∧ closed = true ∧ items.length ≤ keys.length ∧
        (keys.zip items).foldlM (fun s pair => set inner s pair.1 pair.2) start = .ok s := by
  cases room with
  | zero => simp [record]
  | succ inner =>
    have hrecord : record keys set start (inner + 1) (.array items closed) =
        (do
          let final ← (keys.zip items).foldlM (fun s pair => set inner s pair.1 pair.2) start
          if closed && items.length ≤ keys.length then return final else throw .malformed) := rfl
    rw [hrecord, bind_eq_ok]
    constructor
    · rintro ⟨final, hfold, hfinal⟩
      split at hfinal
      · next hwhole =>
        obtain rfl := Except.ok.inj hfinal
        obtain ⟨hclosed, hlength⟩ := Bool.and_eq_true_iff.mp hwhole
        exact ⟨inner, rfl, hclosed, of_decide_eq_true hlength, hfold⟩
      · nomatch hfinal
    · rintro ⟨_, hinner, rfl, hlength, hfold⟩
      obtain rfl := Nat.succ.inj hinner
      exact ⟨s, hfold, if_pos (by simpa using hlength)⟩

/-! ### Other entries -/

/-- Known keys can be set in either order. -/
def Commutes (keys : List String) (set : σ → String → Tree → Decoded σ) : Prop :=
  ∀ ⦃a⦄, a ∈ keys → ∀ ⦃b⦄, b ∈ keys → a ≠ b → ∀ {s t u s'},
    (set s a t >>= fun next => set next b u) = .ok s' → (set s b u >>= fun next => set next a t) = .ok s'

theorem foldlM_perm (hset : Commutes keys set) {pairs pairs' : List (String × Tree)}
    (hperm : pairs.Perm pairs') (hkeys : ∀ pair ∈ pairs, pair.1 ∈ keys)
    (hdistinct : (pairs.map Prod.fst).Nodup)
    (h : pairs.foldlM (fun s pair => set s pair.1 pair.2) s = .ok s') :
    pairs'.foldlM (fun s pair => set s pair.1 pair.2) s = .ok s' := by
  induction hperm generalizing s with
  | nil => exact h
  | cons pair _ ih =>
    rw [List.foldlM_cons, bind_eq_ok] at h ⊢
    obtain ⟨next, hnext, hrest⟩ := h
    exact ⟨next, hnext, ih (List.forall_mem_cons.mp hkeys).2 (List.nodup_cons.mp hdistinct).2 hrest⟩
  | swap a b rest =>
    obtain ⟨hb, hkeys⟩ := List.forall_mem_cons.mp hkeys
    obtain ⟨ha, _⟩ := List.forall_mem_cons.mp hkeys
    have hne : b.1 ≠ a.1 := fun heq => (List.nodup_cons.mp hdistinct).1 (by simp [heq])
    simp only [List.foldlM_cons, ← bind_assoc] at h ⊢
    obtain ⟨next, hboth, hrest⟩ := bind_eq_ok.mp h
    exact bind_eq_ok.mpr ⟨next, hset hb ha hne hboth, hrest⟩
  | trans hfirst _ ih ih' =>
    refine ih' (fun pair hpair => hkeys pair (hfirst.mem_iff.mpr hpair)) ?_ (ih hkeys hdistinct h)
    exact (hfirst.map Prod.fst).nodup_iff.mp hdistinct

/-- The order of the entries does not matter. -/
theorem ReadsAs.perm (hset : Commutes keys set) (h : ReadsAs keys set s entries s')
    (hperm : entries.Perm entries') : ReadsAs keys set s entries' s' := by
  have hknown : (known keys entries).Perm (known keys entries') := hperm.filterMap _
  refine ⟨fun entry hentry => h.readable entry (hperm.mem_iff.mpr hentry), ?_, ?_⟩
  · exact (hknown.map Prod.fst).nodup_iff.mp h.distinct
  · exact foldlM_perm hset hknown (fun pair hpair => (mem_known hpair).1) h.distinct h.run

/-- An entry with another key is skipped. -/
theorem ReadsAs.insert_unknown (h : ReadsAs keys set s (front ++ back) s') (hname : name ∉ keys)
    (t : Tree) : ReadsAs keys set s (front ++ (some name.toList, t) :: back) s' := by
  have hknown : known keys (front ++ (some name.toList, t) :: back) = known keys (front ++ back) := by
    rw [known_append, known_append, known_cons_of_notMem (by simpa using hname)]
  refine ⟨fun entry hentry => ?_, hknown ▸ h.distinct, hknown ▸ h.run⟩
  rcases List.mem_cons.mp (List.perm_middle.mem_iff.mp hentry) with rfl | hentry
  · nofun
  · exact h.readable entry hentry

/-- An absent key may be given if its value stands for what the start has. -/
theorem ReadsAs.insert_known (hset : Commutes keys set) (h : ReadsAs keys set s (front ++ back) s')
    (hname : name ∈ keys) (hstart : set s name t = .ok s)
    (habsent : ∀ entry ∈ front ++ back, entry.1 ≠ some name.toList) :
    ReadsAs keys set s (front ++ (some name.toList, t) :: back) s' := by
  have hfirst : ReadsAs keys set s ((some name.toList, t) :: (front ++ back)) s' := by
    rw [readsAs_cons_of_mem (by simpa using hname), String.ofList_toList]
    refine ⟨fun entry hentry hsame => ?_, s, hstart, h⟩
    exact habsent _ (mem_known hentry).2 (by rw [hsame])
  exact hfirst.perm hset List.perm_middle.symm

/-- A value may be replaced by one that sets the same. -/
theorem ReadsAs.replace {cs : List Char} (h : ReadsAs keys set s (front ++ (some cs, t) :: back) s')
    (hset : ∀ s next, String.ofList cs ∈ keys → set s (String.ofList cs) t = .ok next →
      set s (String.ofList cs) t' = .ok next) :
    ReadsAs keys set s (front ++ (some cs, t') :: back) s' := by
  obtain ⟨hreadable, hdistinct, hrun⟩ := h
  have hreadable' : ∀ entry ∈ front ++ (some cs, t') :: back, entry.1 ≠ none := by
    rw [List.forall_mem_append, List.forall_mem_cons] at hreadable ⊢
    exact ⟨hreadable.1, nofun, hreadable.2.2⟩
  by_cases hkey : String.ofList cs ∈ keys
  · rw [known_append, known_cons_of_mem hkey] at hdistinct hrun
    refine ⟨hreadable', ?_, ?_⟩
    · rw [known_append, known_cons_of_mem hkey]
      simpa using hdistinct
    · rw [known_append, known_cons_of_mem hkey]
      exact foldlM_replace hrun fun s next hnext => hset s next hkey hnext
  · rw [known_append, known_cons_of_notMem hkey] at hdistinct hrun
    refine ⟨hreadable', ?_, ?_⟩
    · rwa [known_append, known_cons_of_notMem hkey]
    · rwa [known_append, known_cons_of_notMem hkey]

/-- An item that stands for a key may be replaced by one that sets the same. -/
theorem foldlM_zip_replace {front back : List Tree}
    (hset : ∀ s next name, keys[front.length]? = some name → set s name t = .ok next →
      set s name t' = .ok next)
    (h : (keys.zip (front ++ t :: back)).foldlM (fun s pair => set s pair.1 pair.2) s = .ok s') :
    (keys.zip (front ++ t' :: back)).foldlM (fun s pair => set s pair.1 pair.2) s = .ok s' := by
  induction front generalizing keys s with
  | nil =>
    cases keys with
    | nil => exact h
    | cons name keys =>
      obtain ⟨next, hnext, hrest⟩ := bind_eq_ok.mp h
      exact bind_eq_ok.mpr ⟨next, hset s next name rfl hnext, hrest⟩
  | cons item front ih =>
    cases keys with
    | nil => exact h
    | cons name keys =>
      obtain ⟨next, hnext, hrest⟩ := bind_eq_ok.mp h
      exact bind_eq_ok.mpr ⟨next, hnext, ih hset hrest⟩

end Record

/-! ### Fields -/

section Fields

variable {σ : Type} {s s' : σ}

/-- A field of a structure: how its value is read and where it is put. -/
structure Slot (σ : Type) where
  Value : Type
  read : Nat → Tree → Decoded Value
  write : σ → Value → σ

/-- Reads a value and puts it into the field. -/
def Slot.set (slot : Slot σ) (room : Nat) (s : σ) (t : Tree) : Decoded σ := do
  return slot.write s (← slot.read room t)

/-- Fields that can be set in either order. -/
def Slot.Apart (a b : Slot σ) : Prop := ∀ s v w, b.write (a.write s v) w = a.write (b.write s w) v

theorem Slot.set_eq_ok_iff {slot : Slot σ} {room : Nat} {t : Tree} :
    slot.set room s t = .ok s' ↔ ∃ v, slot.read room t = .ok v ∧ slot.write s v = s' := by
  rw [Slot.set, bind_eq_ok]
  refine exists_congr fun v => and_congr_right fun _ => ?_
  exact ⟨Except.ok.inj, congrArg Except.ok⟩

theorem Slot.Apart.symm {a b : Slot σ} (h : a.Apart b) : b.Apart a := fun s v w => (h s w v).symm

theorem Slot.Apart.set {a b : Slot σ} (h : a.Apart b) {room : Nat} {t u : Tree}
    (hset : (a.set room s t >>= fun next => b.set room next u) = .ok s') :
    (b.set room s u >>= fun next => a.set room next t) = .ok s' := by
  simp only [bind_eq_ok, Slot.set_eq_ok_iff] at hset ⊢
  obtain ⟨_, ⟨v, hv, rfl⟩, w, hw, rfl⟩ := hset
  exact ⟨_, ⟨w, hw, rfl⟩, v, hv, (h s v w).symm⟩

end Fields

end TypedClient.Json.Tree
