import Mathlib.Data.List.Nodup
import TypedClient.Document.Reader
import TypedClient.Proofs.Sequences

/-! What holds of every value that is read. A property of the start that each key keeps
holds of a whole structure; and the entries of an object have distinct keys, since a
repeated key takes the place of the first. So the properties of each schema of a document
have distinct names. -/

namespace TypedClient

open Json

namespace Json

/-! ### Maps -/

theorem mem_setEntry {α : Type} {key : String} {value : α} {map : List (String × α)}
    {entry : String × α} (h : entry ∈ setEntry key value map) : entry.2 = value ∨ entry ∈ map := by
  induction map with
  | nil => exact .inl (List.mem_singleton.mp h ▸ rfl)
  | cons first rest ih =>
    obtain ⟨k, v⟩ := first
    by_cases hk : k = key
    · rw [setEntry, if_pos hk, List.mem_cons] at h
      rcases h with rfl | h
      · exact .inl rfl
      · exact .inr (List.mem_cons_of_mem _ h)
    · rw [setEntry, if_neg hk, List.mem_cons] at h
      rcases h with rfl | h
      · exact .inr (List.mem_cons_self ..)
      · exact (ih h).imp_right (List.mem_cons_of_mem _)

namespace Tree

/-! ### What steps keep -/

section Keeps

variable {σ : Type} {P : σ → Prop}

theorem foldlM_keeps {α : Type} {step : σ → α → Decoded σ}
    (hstep : ∀ s a t, P s → step s a = .ok t → P t) {l : List α} {s t : σ} (hs : P s)
    (h : l.foldlM step s = .ok t) : P t := by
  induction l generalizing s with
  | nil =>
    obtain rfl : s = t := Except.ok.inj h
    exact hs
  | cons a rest ih =>
    rw [List.foldlM_cons, bind_eq_ok] at h
    obtain ⟨u, hu, hrest⟩ := h
    exact ih (hstep s a u hs hu) hrest

theorem foldEntries_keeps {step : σ → String → Tree → Decoded σ}
    (hstep : ∀ s key t s', P s → step s key t = .ok s' → P s') {start final : σ} (hstart : P start)
    {entries : List (Text × Tree)} {closed : Bool}
    (h : foldEntries step start entries closed = .ok final) : P final := by
  obtain ⟨last, hfold, hclosed⟩ := bind_eq_ok.mp h
  have hlast : P last := by
    refine foldlM_keeps (fun s entry t hs ht => ?_) hstart hfold
    obtain ⟨key, _, ht⟩ := bind_eq_ok.mp ht
    exact hstep s key entry.2 t hs ht
  split at hclosed
  · exact Except.ok.inj hclosed ▸ hlast
  · nomatch hclosed

/-- What the start has and every key keeps holds of a structure that is read. -/
theorem record_keeps {keys : List String} {set : Nat → σ → String → Tree → Decoded σ}
    (hset : ∀ room s key t s', P s → set room s key t = .ok s' → P s') {start final : σ}
    (hstart : P start) {room : Nat} {t : Tree} (h : record keys set start room t = .ok final) :
    P final := by
  unfold record at h
  split at h
  · split at h
    · nomatch h
    · next inner =>
      obtain ⟨last, hlast, hfinal⟩ := bind_eq_ok.mp h
      rw [← Except.ok.inj hfinal]
      refine foldEntries_keeps (P := fun state => P state.1) (fun s key t s' hs hs' => ?_) hstart hlast
      split at hs'
      · exact Except.ok.inj hs' ▸ hs
      · split at hs'
        · nomatch hs'
        · obtain ⟨u, hu, hs'⟩ := bind_eq_ok.mp hs'
          exact Except.ok.inj hs' ▸ hset inner s.1 key t u hs hu
  · split at h
    · nomatch h
    · next inner =>
      obtain ⟨last, hlast, hfinal⟩ := bind_eq_ok.mp h
      have hkept : P last :=
        foldlM_keeps (fun s entry s' hs hs' => hset inner s entry.1 entry.2 s' hs hs') hstart hlast
      split at hfinal
      · exact Except.ok.inj hfinal ▸ hkept
      · nomatch hfinal
  · nomatch h

end Keeps

/-- What a map of entries starts with and keeps with each entry holds of a map that is read. -/
theorem entries_keeps {α : Type} {read : Nat → Tree → Decoded α} {P : List (String × α) → Prop}
    (hnil : P []) (hset : ∀ room t key value map, read room t = .ok value → P map →
      P (setEntry key value map)) {room : Nat} {t : Tree} {map : List (String × α)}
    (h : entries read room t = .ok map) : P map := by
  unfold entries at h
  split at h
  · split at h
    · nomatch h
    · next inner =>
      refine foldEntries_keeps (P := P) (fun map key t map' hmap hmap' => ?_) hnil h
      obtain ⟨value, hvalue, hmap'⟩ := bind_eq_ok.mp hmap'
      exact Except.ok.inj hmap' ▸ hset inner t key value map hvalue hmap
  · nomatch h

theorem nodup_entries {α : Type} {read : Nat → Tree → Decoded α} {room : Nat} {t : Tree}
    {map : List (String × α)} (h : entries read room t = .ok map) : (map.map Prod.fst).Nodup :=
  entries_keeps (P := fun map => (map.map Prod.fst).Nodup) List.nodup_nil
    (fun _ _ _ _ _ _ => nodup_setEntry) h

/-- What holds of every value that is read holds of the values of a map. -/
theorem forall_mem_entries {α : Type} {P : α → Prop} {read : Nat → Tree → Decoded α}
    (hread : ∀ {room t value}, read room t = .ok value → P value) {room : Nat} {t : Tree}
    {map : List (String × α)} (h : entries read room t = .ok map) : ∀ entry ∈ map, P entry.2 := by
  refine entries_keeps (P := fun map => ∀ entry ∈ map, P entry.2)
    (fun _ hentry => nomatch hentry) (fun room t key value map hvalue hmap entry hentry => ?_) h
  rcases mem_setEntry hentry with hnew | hold
  · exact hnew ▸ hread hvalue
  · exact hmap entry hold

theorem optional_eq_some {α : Type} {read : Tree → Decoded α} {t : Tree} {a : α}
    (h : optional read t = .ok (some a)) : read t = .ok a := by
  have hsome : ∀ {x : Decoded α}, x.map some = .ok (some a) → x = .ok a := by
    intro x hx
    cases x with
    | error fault => nomatch hx
    | ok b =>
      have hb : some b = some a := Except.ok.inj hx
      rw [Option.some.inj hb]
  cases t with
  | null => nomatch Except.ok.inj h
  | _ => exact hsome h

end Tree

end Json

namespace Document

open Tree

/-! ### The schemas of a document -/

section Schemas

variable {P : List (String × Schema) → Prop} (hnil : P [])
  (hread : ∀ {room t map}, entries Schema.ofTree room t = .ok map → P map)

include hnil hread

theorem components_keeps {room : Nat} {t : Tree} {c : Components}
    (h : Components.ofTree room t = .ok c) : P c.schemas := by
  refine record_keeps (P := fun c : Components => P c.schemas)
    (fun room c key t c' hc hc' => ?_) hnil h
  split at hc'
  · obtain ⟨schemas, hschemas, hc'⟩ := bind_eq_ok.mp hc'
    rw [← Except.ok.inj hc', c.schemas_withSchemas (nodup_entries hschemas)]
    exact hread hschemas
  · obtain ⟨_, _, hc'⟩ := bind_eq_ok.mp hc'
    exact Except.ok.inj hc' ▸ hc
  · exact Except.ok.inj hc' ▸ hc

theorem ofTree_keeps {room : Nat} {t : Tree} {d : Document} (h : ofTree room t = .ok d) :
    P d.components.schemas := by
  refine record_keeps (P := fun d : Document => P d.components.schemas)
    (fun room d key t d' hd hd' => ?_) hnil h
  split at hd'
  case h_5 =>
    obtain ⟨components, hcomponents, hd'⟩ := bind_eq_ok.mp hd'
    exact Except.ok.inj hd' ▸ components_keeps hnil hread hcomponents
  case h_6 => exact Except.ok.inj hd' ▸ hd
  -- The other keys leave the components alone.
  all_goals
    obtain ⟨_, _, hd'⟩ := bind_eq_ok.mp hd'
    exact Except.ok.inj hd' ▸ hd

/-- What holds of every map of schemas that is read holds of the schemas of a document. -/
theorem schemas_ofText {text : String} {d : Document} (h : ofText text = .ok d) :
    P d.components.schemas := by
  obtain ⟨value, hvalue, hwhole⟩ := bind_eq_ok.mp h
  split at hwhole
  · exact Except.ok.inj hwhole ▸ ofTree_keeps hnil hread hvalue
  · nomatch hwhole

end Schemas

/-- The properties that a schema declares have distinct names. -/
def Schema.HasDistinctProperties (s : Schema) : Prop :=
  ∀ properties, s.properties = some properties → (properties.map Prod.fst).Nodup

theorem hasDistinctProperties_set {nested : Nat → Tree → Decoded Schema} {room : Nat} {s s' : Schema}
    {key : String} {t : Tree} (hs : s.HasDistinctProperties) (h : s.set nested room key t = .ok s') :
    s'.HasDistinctProperties := by
  unfold Schema.set at h
  split at h
  case h_7 =>
    obtain ⟨read, hread, h⟩ := bind_eq_ok.mp h
    intro properties hproperties
    rw [← Except.ok.inj h] at hproperties
    obtain rfl : read = some properties := hproperties
    exact nodup_entries (optional_eq_some hread)
  case h_12 => exact Except.ok.inj h ▸ hs
  -- The other keys leave the properties alone.
  all_goals
    obtain ⟨_, _, h⟩ := bind_eq_ok.mp h
    exact Except.ok.inj h ▸ hs

theorem hasDistinctProperties_ofTree {room : Nat} {t : Tree} {s : Schema}
    (h : Schema.ofTree room t = .ok s) : s.HasDistinctProperties := by
  have hempty : Schema.empty.HasDistinctProperties := fun _ h => nomatch h
  have hwithin : ∀ fuel, Schema.within fuel room t = .ok s → s.HasDistinctProperties := by
    intro fuel h
    cases fuel with
    | zero => exact record_keeps (fun _ _ _ _ _ => hasDistinctProperties_set) hempty h
    | succ fuel => exact record_keeps (fun _ _ _ _ _ => hasDistinctProperties_set) hempty h
  exact hwithin room h

/-- The schemas of a document that was read have distinct properties. -/
theorem hasDistinctProperties_ofText {text : String} {d : Document} (h : ofText text = .ok d) :
    ∀ entry ∈ d.components.schemas, entry.2.HasDistinctProperties :=
  schemas_ofText (P := fun schemas => ∀ entry ∈ schemas, entry.2.HasDistinctProperties)
    (fun _ hentry => nomatch hentry) (forall_mem_entries hasDistinctProperties_ofTree) h

end Document

end TypedClient
