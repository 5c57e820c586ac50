import Mathlib.Data.List.Pairwise
import Mathlib.Logic.Relation
import TypedClient.Proofs.CompleteTrees
import TypedClient.Proofs.RecordReading

/-! What does not matter to whoever reads a document. A document is built from structures, whose keys
may come in any order, next to keys that are not known, and with `null` for what is absent. Maps and
path items are different: the order of their keys is part of the document, and no key is unknown. So a
change is allowed or not according to what is expected where it is made, and the readers agree with
that kind by kind, from the schemas up to the whole document. -/

namespace TypedClient.Document

open Json Tree Route

/-! ### What stands where -/

/-- The kinds of structures. -/
inductive Kind
  | root | info | components | operation | parameter | requestBody | response | mediaType | schema

/-- What is expected at a place of a document. -/
inductive Form
  /-- A value without structures in it. -/
  | plain
  | record (kind : Kind)
  | list (item : Form)
  | map (value : Form)
  | pathItem

structure Field where
  form : Form
  /-- Whether `null` stands for the default. -/
  nullable : Bool

/-- The keys of a kind of structures, in their order. -/
def Kind.fields : Kind → List (String × Field)
  | .root =>
    [("openapi", ⟨.plain, true⟩), ("swagger", ⟨.plain, true⟩), ("info", ⟨.record .info, false⟩),
      ("paths", ⟨.map .pathItem, false⟩), ("components", ⟨.record .components, false⟩)]
  | .info =>
    [("title", ⟨.plain, true⟩), ("version", ⟨.plain, true⟩), ("description", ⟨.plain, true⟩)]
  | .components =>
    [("schemas", ⟨.map (.record .schema), false⟩),
      ("parameters", ⟨.map (.record .parameter), false⟩)]
  | .operation =>
    [("operationId", ⟨.plain, true⟩), ("summary", ⟨.plain, true⟩), ("description", ⟨.plain, true⟩),
      ("parameters", ⟨.list (.record .parameter), true⟩),
      ("requestBody", ⟨.record .requestBody, true⟩),
      ("responses", ⟨.map (.record .response), false⟩)]
  | .parameter =>
    [("$ref", ⟨.plain, true⟩), ("name", ⟨.plain, true⟩), ("in", ⟨.plain, true⟩),
      ("required", ⟨.plain, true⟩), ("description", ⟨.plain, true⟩),
      ("schema", ⟨.record .schema, true⟩)]
  | .requestBody =>
    [("description", ⟨.plain, true⟩), ("required", ⟨.plain, true⟩),
      ("content", ⟨.map (.record .mediaType), false⟩)]
  | .response =>
    [("description", ⟨.plain, true⟩), ("content", ⟨.map (.record .mediaType), false⟩)]
  | .mediaType => [("schema", ⟨.record .schema, true⟩)]
  | .schema =>
    [("$ref", ⟨.plain, true⟩), ("type", ⟨.plain, true⟩), ("enum", ⟨.plain, true⟩),
      ("format", ⟨.plain, true⟩), ("description", ⟨.plain, true⟩),
      ("items", ⟨.record .schema, true⟩), ("properties", ⟨.map (.record .schema), true⟩),
      ("required", ⟨.plain, true⟩), ("allOf", ⟨.list (.record .schema), true⟩),
      ("oneOf", ⟨.list (.record .schema), true⟩), ("anyOf", ⟨.list (.record .schema), true⟩)]

def Kind.keys (k : Kind) : List String := k.fields.map Prod.fst

/-- What is expected behind a key. -/
def Form.behind : Form → String → Form
  | .record k, key => ((k.fields.lookup key).map Field.form).getD .plain
  | .map value, _ => value
  | .pathItem, key =>
    if key = "parameters" then .list (.record .parameter)
    else if (Method.ofKey? key).isSome then .record .operation
    else .plain
  | .plain, _ | .list _, _ => .plain

/-- A tree with a change that does not matter where `f` is expected: the entries of a structure in
another order, one more entry with a key that is not known, or a `null` for an absent key that may be
`null`. The change may be anywhere inside. -/
inductive Varies : Form → Tree → Tree → Prop
  | order {k : Kind} {entries entries' : List (Text × Tree)} {closed : Bool}
    (h : entries.Perm entries') : Varies (.record k) (.object entries closed) (.object entries' closed)
  | unknown {k : Kind} {front back : List (Text × Tree)} {closed : Bool} {name : String} {t : Tree}
    (hname : name ∉ k.keys) (ht : ∃ text, Reading.ofText text = ⟨t, true⟩) :
    Varies (.record k) (.object (front ++ back) closed)
      (.object (front ++ (some name.toList, t) :: back) closed)
  | null {k : Kind} {front back : List (Text × Tree)} {closed : Bool} {name : String} {field : Field}
    (hfield : (name, field) ∈ k.fields) (hnullable : field.nullable = true)
    (habsent : ∀ entry ∈ front ++ back, entry.1 ≠ some name.toList) :
    Varies (.record k) (.object (front ++ back) closed)
      (.object (front ++ (some name.toList, .null) :: back) closed)
  | entry {f : Form} {front back : List (Text × Tree)} {closed : Bool} {key : List Char}
    {t t' : Tree} (h : Varies (f.behind (String.ofList key)) t t') :
    Varies f (.object (front ++ (some key, t) :: back) closed)
      (.object (front ++ (some key, t') :: back) closed)
  | element {k : Kind} {front back : List Tree} {closed : Bool} {name : String} {field : Field}
    {t t' : Tree} (hfield : k.fields[front.length]? = some (name, field))
    (h : Varies field.form t t') :
    Varies (.record k) (.array (front ++ t :: back) closed) (.array (front ++ t' :: back) closed)
  | item {f : Form} {front back : List Tree} {closed : Bool} {t t' : Tree} (h : Varies f t t') :
    Varies (.list f) (.array (front ++ t :: back) closed) (.array (front ++ t' :: back) closed)

/-! ### Readers -/

/-- Whatever is read is read from a varied tree too. -/
def Lenient {α : Type} (f : Form) (read : Nat → Tree → Decoded α) : Prop :=
  ∀ ⦃t t'⦄, Varies f t t' → ∀ {room value}, read room t = .ok value → read room t' = .ok value

section Readers

variable {α σ : Type} {f : Form} {read : Nat → Tree → Decoded α} {t t' : Tree}

/-- A value without structures does not vary. -/
theorem not_varies_plain (t t' : Tree) : ¬Varies .plain t t' := by
  intro h
  generalize hplain : Form.plain = f at h
  induction h with
  | entry _ ih =>
    subst hplain
    exact ih rfl
  | _ => nomatch hplain

theorem lenient_plain (read : Nat → Tree → Decoded α) : Lenient .plain read :=
  fun t t' h => absurd h (not_varies_plain t t')

/-- Only what has entries or items varies. -/
theorem Varies.ne_null (h : Varies f t t') : t ≠ .null ∧ t' ≠ .null := by
  cases h <;> exact ⟨nofun, nofun⟩

theorem optional_of_ne_null (read : Tree → Decoded α) (h : t ≠ .null) :
    optional read t = (read t).map some := by
  cases t with
  | null => exact absurd rfl h
  | _ => rfl

theorem orDefault_of_ne_null (default : α) (read : Tree → Decoded α) (h : t ≠ .null) :
    orDefault default read t = read t := by
  cases t with
  | null => exact absurd rfl h
  | _ => rfl

theorem Lenient.optional (hread : Lenient f read) :
    Lenient f fun room => Tree.optional (read room) := by
  intro t t' h room value hvalue
  dsimp only at hvalue ⊢
  rw [optional_of_ne_null _ h.ne_null.1] at hvalue
  rw [optional_of_ne_null _ h.ne_null.2]
  cases hfirst : read room t with
  | error fault =>
    rw [hfirst] at hvalue
    nomatch hvalue
  | ok a =>
    rw [hread h hfirst]
    rwa [hfirst] at hvalue

theorem Lenient.orDefault (hread : Lenient f read) (default : α) :
    Lenient f fun room => Tree.orDefault default (read room) := by
  intro t t' h room value hvalue
  dsimp only at hvalue ⊢
  rw [orDefault_of_ne_null _ _ h.ne_null.1] at hvalue
  rw [orDefault_of_ne_null _ _ h.ne_null.2]
  exact hread h hvalue

theorem Lenient.list (hread : Lenient f read) : Lenient (.list f) (Tree.list read) := by
  intro t t' h room value hvalue
  cases h with
  | entry h => exact absurd h (not_varies_plain _ _)
  | item h =>
    cases room with
    | zero => nomatch hvalue
    | succ inner =>
      obtain ⟨values, hvalues, hclosed⟩ := bind_eq_ok.mp hvalue
      exact bind_eq_ok.mpr ⟨values, mapM_replace hvalues fun _ => hread h, hclosed⟩

theorem Lenient.entries (hread : Lenient f read) : Lenient (.map f) (Tree.entries read) := by
  intro t t' h room value hvalue
  cases h with
  | entry h =>
    cases room with
    | zero => nomatch hvalue
    | succ inner =>
      rw [Tree.entries] at hvalue ⊢
      refine foldEntries_replace hvalue fun map map' hmap => ?_
      obtain ⟨v, hv, hmap⟩ := bind_eq_ok.mp hmap
      exact bind_eq_ok.mpr ⟨v, hread h hv, hmap⟩

/-! ### Structures -/

/-- A field of a structure serves a key: it does what the key does, keeps the start for a `null` where
that is allowed, and does not mind what does not matter to its value. -/
structure Serves (set : Nat → σ → String → Tree → Decoded σ) (start : σ) (key : String × Field)
    (slot : Slot σ) : Prop where
  set_eq : ∀ room s t, set room s key.1 t = slot.set room s t
  null : key.2.nullable = true → ∀ room, slot.set room start .null = .ok start
  lenient : Lenient key.2.form slot.read

variable {set : Nat → σ → String → Tree → Decoded σ} {start : σ} {slots : List (Slot σ)}

theorem Serves.set_varied {key : String × Field} {slot : Slot σ} (h : Serves set start key slot)
    (hvaries : Varies key.2.form t t') {room : Nat} {s next : σ}
    (hset : set room s key.1 t = .ok next) : set room s key.1 t' = .ok next := by
  rw [h.set_eq, Slot.set_eq_ok_iff] at hset ⊢
  obtain ⟨v, hv, hnext⟩ := hset
  exact ⟨v, h.lenient hvaries hv, hnext⟩

theorem exists_serves {keys : List (String × Field)}
    (h : List.Forall₂ (Serves set start) keys slots) {key : String × Field} (hkey : key ∈ keys) :
    ∃ slot, (key, slot) ∈ keys.zip slots ∧ Serves set start key slot := by
  induction h with
  | nil => nomatch hkey
  | cons hfirst _ ih =>
    rcases List.mem_cons.mp hkey with rfl | hkey
    · exact ⟨_, List.mem_cons_self .., hfirst⟩
    · obtain ⟨slot, hmem, hslot⟩ := ih hkey
      exact ⟨slot, List.mem_cons_of_mem _ hmem, hslot⟩

theorem commutes_of_serves {keys : List (String × Field)}
    (h : List.Forall₂ (Serves set start) keys slots) (hapart : slots.Pairwise Slot.Apart)
    (room : Nat) : Commutes (keys.map Prod.fst) (set room) := by
  have hrows : (keys.zip slots).Pairwise fun row row' => row.2.Apart row'.2 := by
    rw [← List.pairwise_map, List.map_snd_zip (Nat.le_of_eq h.length_eq.symm)]
    exact hapart
  have hsymm : Std.Symm fun row row' : (String × Field) × Slot σ => row.2.Apart row'.2 :=
    ⟨fun _ _ h => h.symm⟩
  intro a ha b hb hab s t u s' hset
  obtain ⟨⟨_, field⟩, hfield, rfl⟩ := List.mem_map.mp ha
  obtain ⟨⟨_, field'⟩, hfield', rfl⟩ := List.mem_map.mp hb
  obtain ⟨slot, hmem, hslot⟩ := exists_serves h hfield
  obtain ⟨slot', hmem', hslot'⟩ := exists_serves h hfield'
  have hne : slot.Apart slot' :=
    hrows.forall hmem hmem' fun heq => hab (congrArg (·.1.1) heq)
  simp only [hslot.set_eq, hslot'.set_eq] at hset ⊢
  exact hne.set hset

/-- What is behind the key of a field. -/
theorem exists_field {k : Kind} {name : String} (h : name ∈ k.keys) :
    ∃ field, (name, field) ∈ k.fields ∧ (Form.record k).behind name = field.form := by
  have hlookup : (k.fields.lookup name).isSome = true := by
    obtain ⟨entry, hentry, rfl⟩ := List.mem_map.mp h
    exact List.lookup_isSome_iff.mpr ⟨entry, hentry, beq_self_eq_true _⟩
  obtain ⟨field, hfield⟩ := Option.isSome_iff_exists.mp hlookup
  refine ⟨field, ?_, by rw [Form.behind, hfield]; rfl⟩
  obtain ⟨before, after, hfields, _⟩ := List.lookup_eq_some_iff.mp hfield
  simp [hfields]

/-- A structure is read with each of its keys served by a field of its own. -/
theorem lenient_record {k : Kind} (slots : List (Slot σ))
    (h : List.Forall₂ (Serves set start) k.fields slots) (hapart : slots.Pairwise Slot.Apart) :
    Lenient (.record k) (record k.keys set start) := by
  intro t t' hvaries room value hvalue
  have hcommutes := commutes_of_serves h hapart
  cases hvaries with
  | order hperm =>
    obtain ⟨inner, hroom, hclosed, hreads⟩ := record_object_eq_ok_iff.mp hvalue
    exact record_object_eq_ok_iff.mpr ⟨inner, hroom, hclosed, hreads.perm (hcommutes inner) hperm⟩
  | unknown hname _ =>
    obtain ⟨inner, hroom, hclosed, hreads⟩ := record_object_eq_ok_iff.mp hvalue
    exact record_object_eq_ok_iff.mpr ⟨inner, hroom, hclosed, hreads.insert_unknown hname _⟩
  | null hfield hnullable habsent =>
    obtain ⟨inner, hroom, hclosed, hreads⟩ := record_object_eq_ok_iff.mp hvalue
    obtain ⟨slot, _, hslot⟩ := exists_serves h hfield
    have hstart : set inner start _ .null = .ok start :=
      (hslot.set_eq inner start .null).trans (hslot.null hnullable inner)
    exact record_object_eq_ok_iff.mpr ⟨inner, hroom, hclosed,
      hreads.insert_known (hcommutes inner) (List.mem_map_of_mem hfield) hstart habsent⟩
  | entry hinside =>
    obtain ⟨inner, hroom, hclosed, hreads⟩ := record_object_eq_ok_iff.mp hvalue
    refine record_object_eq_ok_iff.mpr ⟨inner, hroom, hclosed, hreads.replace fun s next hkey hset => ?_⟩
    obtain ⟨field, hfield, hform⟩ := exists_field hkey
    rw [hform] at hinside
    obtain ⟨slot, _, hslot⟩ := exists_serves h hfield
    exact hslot.set_varied hinside hset
  | @element _ front back _ name field _ _ hfield hinside =>
    obtain ⟨inner, hroom, hclosed, hlength, hfold⟩ := record_array_eq_ok_iff.mp hvalue
    refine record_array_eq_ok_iff.mpr ⟨inner, hroom, hclosed, by simpa using hlength,
      foldlM_zip_replace (fun s next key hkey hset => ?_) hfold⟩
    have hname : k.keys[front.length]? = some name := by rw [Kind.keys, List.getElem?_map, hfield]; rfl
    obtain rfl : name = key := Option.some.inj (hname.symm.trans hkey)
    obtain ⟨slot, _, hslot⟩ := exists_serves h (List.mem_of_getElem? hfield)
    exact hslot.set_varied hinside hset

end Readers

/-! ### Fields -/

section Fields

variable {α σ : Type} {f : Form} {name : String} {read : Nat → Tree → Decoded α} {start : σ}
  {set : Nat → σ → String → Tree → Decoded σ}

/-- A field that may be `null` for none. -/
def optionalSlot (read : Nat → Tree → Decoded α) (write : σ → Option α → σ) : Slot σ :=
  ⟨Option α, fun room => Tree.optional (read room), write⟩

/-- A field that may be `null` for its default. -/
def defaultSlot (default : α) (read : Nat → Tree → Decoded α) (write : σ → α → σ) : Slot σ :=
  ⟨α, fun room => Tree.orDefault default (read room), write⟩

theorem serves_optional {write : σ → Option α → σ} (hread : Lenient f read)
    (hset : ∀ room s t, set room s name t = (optionalSlot read write).set room s t)
    (hstart : write start none = start) :
    Serves set start (name, ⟨f, true⟩) (optionalSlot read write) where
  set_eq := hset
  null := fun _ _ => congrArg Except.ok hstart
  lenient := hread.optional

theorem serves_default {default : α} {write : σ → α → σ} (hread : Lenient f read)
    (hset : ∀ room s t, set room s name t = (defaultSlot default read write).set room s t)
    (hstart : write start default = start) :
    Serves set start (name, ⟨f, true⟩) (defaultSlot default read write) where
  set_eq := hset
  null := fun _ _ => congrArg Except.ok hstart
  lenient := hread.orDefault default

theorem serves_needed {write : σ → α → σ} (hread : Lenient f read)
    (hset : ∀ room s t, set room s name t = (Slot.mk α read write).set room s t) :
    Serves set start (name, ⟨f, false⟩) (Slot.mk α read write) where
  set_eq := hset
  null := nofun
  lenient := hread

/-- A field that holds a text. -/
def textSlot (write : σ → Option String → σ) : Slot σ := optionalSlot (fun _ => text?) write

theorem serves_text {write : σ → Option String → σ}
    (hset : ∀ room s t, set room s name t = (textSlot write).set room s t)
    (hstart : write start none = start) : Serves set start (name, ⟨.plain, true⟩) (textSlot write) :=
  serves_optional (lenient_plain _) hset hstart

end Fields

/-! ### Kinds of structures -/

section Schemas

variable (nested : Nat → Tree → Decoded Schema)

def Schema.slots : List (Slot Schema) :=
  [textSlot fun s v => { s with reference := v },
    optionalSlot TypeName.ofTree fun s v => { s with type := v },
    optionalSlot (list value?) fun s v => { s with literals := v },
    textSlot fun s v => { s with format := v },
    textSlot fun s v => { s with description := v },
    optionalSlot nested fun s v => { s with items := v },
    optionalSlot (entries nested) fun s v => { s with properties := v },
    defaultSlot [] (list fun _ => text?) fun s v => { s with required := v },
    optionalSlot (list nested) fun s v => { s with allOf := v },
    optionalSlot (list nested) fun s v => { s with oneOf := v },
    optionalSlot (list nested) fun s v => { s with anyOf := v }]

variable {nested}

theorem lenient_schemaSet (h : Lenient (.record .schema) nested) :
    Lenient (.record .schema) (record Schema.keys (Schema.set nested) .empty) := by
  refine lenient_record (k := .schema) (Schema.slots nested) ?_ ?_
  · exact .cons (serves_text (fun _ _ _ => rfl) rfl) <|
      .cons (serves_optional (lenient_plain _) (fun _ _ _ => rfl) rfl) <|
      .cons (serves_optional (lenient_plain _) (fun _ _ _ => rfl) rfl) <|
      .cons (serves_text (fun _ _ _ => rfl) rfl) <|
      .cons (serves_text (fun _ _ _ => rfl) rfl) <|
      .cons (serves_optional h (fun _ _ _ => rfl) rfl) <|
      .cons (serves_optional h.entries (fun _ _ _ => rfl) rfl) <|
      .cons (serves_default (lenient_plain _) (fun _ _ _ => rfl) rfl) <|
      .cons (serves_optional h.list (fun _ _ _ => rfl) rfl) <|
      .cons (serves_optional h.list (fun _ _ _ => rfl) rfl) <|
      .cons (serves_optional h.list (fun _ _ _ => rfl) rfl) .nil
  · simp only [Schema.slots, List.pairwise_cons, List.forall_mem_cons, List.not_mem_nil,
      IsEmpty.forall_iff, List.Pairwise.nil, implies_true, and_true]
    and_intros <;> exact fun _ _ _ => rfl

end Schemas

/-- The induction is on the steps that are left for nested schemas. -/
theorem lenient_within (fuel : Nat) : Lenient (.record .schema) (Schema.within fuel) := by
  induction fuel with
  | zero => exact lenient_schemaSet fun _ _ _ _ _ h => nomatch h
  | succ fuel ih => exact lenient_schemaSet ih

theorem lenient_schema : Lenient (.record .schema) Schema.ofTree :=
  fun _ _ h room _ hvalue => lenient_within room h hvalue

def Parameter.slots : List (Slot Parameter) :=
  [textSlot fun p v => { p with reference := v },
    textSlot fun p v => { p with name := v },
    optionalSlot Place.ofTree fun p v => { p with place := v },
    defaultSlot false (fun _ => bool?) fun p v => { p with required := v },
    textSlot fun p v => { p with description := v },
    optionalSlot Schema.ofTree fun p v => { p with schema := v }]

theorem lenient_parameter : Lenient (.record .parameter) Parameter.ofTree := by
  refine lenient_record Parameter.slots ?_ ?_
  · exact .cons (serves_text (fun _ _ _ => rfl) rfl) <|
      .cons (serves_text (fun _ _ _ => rfl) rfl) <|
      .cons (serves_optional (lenient_plain _) (fun _ _ _ => rfl) rfl) <|
      .cons (serves_default (lenient_plain _) (fun _ _ _ => rfl) rfl) <|
      .cons (serves_text (fun _ _ _ => rfl) rfl) <|
      .cons (serves_optional lenient_schema (fun _ _ _ => rfl) rfl) .nil
  · simp only [Parameter.slots, List.pairwise_cons, List.forall_mem_cons, List.not_mem_nil,
      IsEmpty.forall_iff, List.Pairwise.nil, implies_true, and_true]
    and_intros <;> exact fun _ _ _ => rfl

def MediaType.slots : List (Slot MediaType) :=
  [optionalSlot Schema.ofTree fun m v => { m with schema := v }]

theorem lenient_mediaType : Lenient (.record .mediaType) MediaType.ofTree :=
  lenient_record MediaType.slots (.cons (serves_optional lenient_schema (fun _ _ _ => rfl) rfl) .nil)
    (List.pairwise_singleton ..)

def RequestBody.slots : List (Slot RequestBody) :=
  [textSlot fun b v => { b with description := v },
    defaultSlot false (fun _ => bool?) fun b v => { b with required := v },
    ⟨_, entries MediaType.ofTree, fun b v => { b with content := v }⟩]

theorem lenient_requestBody : Lenient (.record .requestBody) RequestBody.ofTree := by
  refine lenient_record RequestBody.slots ?_ ?_
  · exact .cons (serves_text (fun _ _ _ => rfl) rfl) <|
      .cons (serves_default (lenient_plain _) (fun _ _ _ => rfl) rfl) <|
      .cons (serves_needed lenient_mediaType.entries fun _ _ _ => rfl) .nil
  · simp only [RequestBody.slots, List.pairwise_cons, List.forall_mem_cons, List.not_mem_nil,
      IsEmpty.forall_iff, List.Pairwise.nil, implies_true, and_true]
    and_intros <;> exact fun _ _ _ => rfl

def Response.slots : List (Slot Response) :=
  [textSlot fun r v => { r with description := v },
    ⟨_, entries MediaType.ofTree, fun r v => { r with content := v }⟩]

theorem lenient_response : Lenient (.record .response) Response.ofTree := by
  refine lenient_record Response.slots ?_ ?_
  · exact .cons (serves_text (fun _ _ _ => rfl) rfl) <|
      .cons (serves_needed lenient_mediaType.entries fun _ _ _ => rfl) .nil
  · simp only [Response.slots, List.pairwise_cons, List.forall_mem_cons, List.not_mem_nil,
      IsEmpty.forall_iff, List.Pairwise.nil, implies_true, and_true]
    exact fun _ _ _ => rfl

def Operation.slots : List (Slot Operation) :=
  [textSlot fun o v => { o with operationId := v },
    textSlot fun o v => { o with summary := v },
    textSlot fun o v => { o with description := v },
    defaultSlot [] (list Parameter.ofTree) fun o v => { o with parameters := v },
    optionalSlot RequestBody.ofTree fun o v => { o with requestBody := v },
    ⟨_, entries Response.ofTree, fun o v => { o with responses := v }⟩]

theorem lenient_operation : Lenient (.record .operation) Operation.ofTree := by
  refine lenient_record Operation.slots ?_ ?_
  · exact .cons (serves_text (fun _ _ _ => rfl) rfl) <|
      .cons (serves_text (fun _ _ _ => rfl) rfl) <|
      .cons (serves_text (fun _ _ _ => rfl) rfl) <|
      .cons (serves_default lenient_parameter.list (fun _ _ _ => rfl) rfl) <|
      .cons (serves_optional lenient_requestBody (fun _ _ _ => rfl) rfl) <|
      .cons (serves_needed lenient_response.entries fun _ _ _ => rfl) .nil
  · simp only [Operation.slots, List.pairwise_cons, List.forall_mem_cons, List.not_mem_nil,
      IsEmpty.forall_iff, List.Pairwise.nil, implies_true, and_true]
    and_intros <;> exact fun _ _ _ => rfl

def Info.slots : List (Slot Info) :=
  [textSlot fun i v => { i with title := v },
    textSlot fun i v => { i with version := v },
    textSlot fun i v => { i with description := v }]

theorem lenient_info : Lenient (.record .info) Info.ofTree := by
  refine lenient_record Info.slots ?_ ?_
  · exact .cons (serves_text (fun _ _ _ => rfl) rfl) <|
      .cons (serves_text (fun _ _ _ => rfl) rfl) <|
      .cons (serves_text (fun _ _ _ => rfl) rfl) .nil
  · simp only [Info.slots, List.pairwise_cons, List.forall_mem_cons, List.not_mem_nil,
      IsEmpty.forall_iff, List.Pairwise.nil, implies_true, and_true]
    and_intros <;> exact fun _ _ _ => rfl

def Components.slots : List (Slot Components) :=
  [⟨_, entries Schema.ofTree, Components.withSchemas⟩,
    ⟨_, entries Parameter.ofTree, fun c v => { c with parameters := v }⟩]

theorem lenient_components : Lenient (.record .components) Components.ofTree := by
  refine lenient_record Components.slots ?_ ?_
  · exact .cons (serves_needed lenient_schema.entries fun _ _ _ => rfl) <|
      .cons (serves_needed lenient_parameter.entries fun _ _ _ => rfl) .nil
  · simp only [Components.slots, List.pairwise_cons, List.forall_mem_cons, List.not_mem_nil,
      IsEmpty.forall_iff, List.Pairwise.nil, implies_true, and_true]
    exact fun _ _ _ => rfl

/-! ### Path items and documents -/

/-- A path item has structures behind `parameters` and behind its methods, and nowhere else. -/
theorem add_varied {room : Nat} {item next : PathItem} {key : String} {t t' : Tree}
    (h : Varies (Form.pathItem.behind key) t t') (hadd : item.add room key t = .ok next) :
    item.add room key t' = .ok next := by
  unfold PathItem.add at hadd ⊢
  rw [Form.behind] at h
  by_cases hkey : key = "parameters"
  · rw [if_pos hkey] at h hadd ⊢
    obtain ⟨parameters, hparameters, hnext⟩ := bind_eq_ok.mp hadd
    exact bind_eq_ok.mpr ⟨parameters, lenient_parameter.list h hparameters, hnext⟩
  · rw [if_neg hkey] at h hadd ⊢
    cases hmethod : Method.ofKey? key with
    | none =>
      rw [hmethod] at h
      exact absurd h (not_varies_plain _ _)
    | some method =>
      rw [hmethod] at h hadd
      obtain ⟨op, hop, hnext⟩ := bind_eq_ok.mp hadd
      exact bind_eq_ok.mpr ⟨op, lenient_operation h hop, hnext⟩

theorem lenient_pathItem : Lenient .pathItem PathItem.ofTree := by
  intro t t' h room item hitem
  cases h with
  | entry h =>
    cases room with
    | zero => nomatch hitem
    | succ inner =>
      rw [PathItem.ofTree] at hitem ⊢
      exact foldEntries_replace hitem fun _ _ hadd => add_varied h hadd

def slots : List (Slot Document) :=
  [textSlot fun d v => { d with openapi := v },
    textSlot fun d v => { d with swagger := v },
    ⟨_, Info.ofTree, fun d v => { d with info := v }⟩,
    ⟨_, entries PathItem.ofTree, fun d v => { d with paths := v }⟩,
    ⟨_, Components.ofTree, fun d v => { d with components := v }⟩]

theorem lenient_root : Lenient (.record .root) ofTree := by
  refine lenient_record slots ?_ ?_
  · exact .cons (serves_text (fun _ _ _ => rfl) rfl) <|
      .cons (serves_text (fun _ _ _ => rfl) rfl) <|
      .cons (serves_needed lenient_info fun _ _ _ => rfl) <|
      .cons (serves_needed lenient_pathItem.entries fun _ _ _ => rfl) <|
      .cons (serves_needed lenient_components fun _ _ _ => rfl) .nil
  · simp only [slots, List.pairwise_cons, List.forall_mem_cons, List.not_mem_nil,
      IsEmpty.forall_iff, List.Pairwise.nil, implies_true, and_true]
    and_intros <;> exact fun _ _ _ => rfl

/-! ### Texts -/

theorem complete_object_iff {entries : List (Text × Tree)} {closed : Bool} :
    (Tree.object entries closed).Complete ↔
      closed = true ∧ ∀ entry ∈ entries, entry.2.Complete := by
  constructor
  · intro h
    cases h with
    | object hentries => exact ⟨rfl, hentries⟩
  · rintro ⟨rfl, hentries⟩
    exact .object hentries

theorem complete_array_iff {items : List Tree} {closed : Bool} :
    (Tree.array items closed).Complete ↔ closed = true ∧ ∀ item ∈ items, item.Complete := by
  constructor
  · intro h
    cases h with
    | array hitems => exact ⟨rfl, hitems⟩
  · rintro ⟨rfl, hitems⟩
    exact .array hitems

/-- A change that does not matter leaves a whole text whole. -/
theorem Varies.complete {f : Form} {t t' : Tree} (h : Varies f t t') (ht : t.Complete) :
    t'.Complete := by
  induction h with
  | order hperm =>
    rw [complete_object_iff] at ht ⊢
    exact ⟨ht.1, fun entry hentry => ht.2 entry (hperm.mem_iff.mpr hentry)⟩
  | unknown _ hvalue =>
    rw [complete_object_iff, List.forall_mem_append] at ht ⊢
    rw [List.forall_mem_cons]
    exact ⟨ht.1, ht.2.1, (complete_iff _).mpr hvalue, ht.2.2⟩
  | null _ _ _ =>
    rw [complete_object_iff, List.forall_mem_append] at ht ⊢
    rw [List.forall_mem_cons]
    exact ⟨ht.1, ht.2.1, .null, ht.2.2⟩
  | entry _ ih =>
    rw [complete_object_iff, List.forall_mem_append, List.forall_mem_cons] at ht ⊢
    exact ⟨ht.1, ht.2.1, ih ht.2.2.1, ht.2.2.2⟩
  | element _ _ ih | item _ ih =>
    rw [complete_array_iff, List.forall_mem_append, List.forall_mem_cons] at ht ⊢
    exact ⟨ht.1, ht.2.1, ih ht.2.2.1, ht.2.2.2⟩

theorem ofText_eq_ok_iff {text : String} {d : Document} : ofText text = .ok d ↔
    ofTree maxDepth (Reading.ofText text).tree = .ok d ∧ (Reading.ofText text).whole = true := by
  rw [ofText, decode, bind_eq_ok]
  constructor
  · rintro ⟨value, hvalue, hwhole⟩
    split at hwhole
    · next hwhole' => exact ⟨Except.ok.inj hwhole ▸ hvalue, hwhole'⟩
    · nomatch hwhole
  · rintro ⟨hvalue, hwhole⟩
    exact ⟨d, hvalue, if_pos hwhole⟩

/-- Where a text is read as a document, changes that do not matter lead to texts again, and each of
these is read as the same document. -/
theorem ofText_of_varies {text : String} {d : Document} {t : Tree} (h : ofText text = .ok d)
    (hvaries : Relation.ReflTransGen (Varies (.record .root)) (Reading.ofText text).tree t) :
    (∃ text', Reading.ofText text' = ⟨t, true⟩) ∧
      ∀ text', Reading.ofText text' = ⟨t, true⟩ → ofText text' = .ok d := by
  obtain ⟨hread, hwhole⟩ := ofText_eq_ok_iff.mp h
  have hcomplete : (Reading.ofText text).tree.Complete :=
    (complete_iff _).mpr ⟨text, by rw [← hwhole]⟩
  have hvaried : t.Complete ∧ ofTree maxDepth t = .ok d := by
    induction hvaries with
    | refl => exact ⟨hcomplete, hread⟩
    | tail _ hstep ih => exact ⟨hstep.complete ih.1, lenient_root hstep ih.2⟩
  refine ⟨(complete_iff t).mp hvaried.1, fun text' htext' => ofText_eq_ok_iff.mpr ?_⟩
  rw [htext']
  exact ⟨hvaried.2, rfl⟩

/-- A small document. -/
def titledText : String := r#"{"info": {"title": "Pets"}, "paths": {}}"#

/-- The same document with an unknown key, a `null` and another order of its keys. -/
def variedText : String :=
  r#"{"paths": {}, "x": [1e999], "info": {"version": null, "title": "Pets"}}"#

def titleEntry : Text × Tree := (some "title".toList, .string (some "Pets".toList))

def pathsEntry : Text × Tree := (some "paths".toList, .object [] true)

def infoEntry (entries : List (Text × Tree)) : Text × Tree :=
  (some "info".toList, .object entries true)

/-- A number that is out of range wherever it is read. -/
def hugeNumber : Tree := .array [.number ⟨false, ['1'], none, some (false, ['9', '9', '9'])⟩] true

def titledTree : Tree := .object [infoEntry [titleEntry], pathsEntry] true

def variedTree : Tree :=
  .object [pathsEntry, (some "x".toList, hugeNumber),
    infoEntry [(some "version".toList, .null), titleEntry]] true

theorem titledText_varied : ∃ d, ofText titledText = .ok d ∧ ofText variedText = .ok d := by
  have hread : ofText titledText = .ok
      { Document.empty with info := ⟨some "Pets", none, none⟩ } := rfl
  have htree : (Reading.ofText titledText).tree = titledTree := rfl
  have hvaried : Reading.ofText variedText = ⟨variedTree, true⟩ := rfl
  have hnull : Varies (.record .root) titledTree
      (.object [infoEntry [(some "version".toList, .null), titleEntry], pathsEntry] true) :=
    @Varies.entry (.record .root) [] [pathsEntry] true "info".toList _ _
      (@Varies.null .info [] [titleEntry] true "version" ⟨.plain, true⟩ (by simp [Kind.fields]) rfl
        (by decide))
  have horder : Varies (.record .root)
      (.object [infoEntry [(some "version".toList, .null), titleEntry], pathsEntry] true)
      (.object [pathsEntry, infoEntry [(some "version".toList, .null), titleEntry]] true) :=
    .order (.swap ..)
  have hunknown : Varies (.record .root)
      (.object [pathsEntry, infoEntry [(some "version".toList, .null), titleEntry]] true) variedTree :=
    @Varies.unknown .root [pathsEntry] [infoEntry _] true "x" hugeNumber (by decide) ⟨"[1e999]", rfl⟩
  have hsteps :
      Relation.ReflTransGen (Varies (.record .root)) (Reading.ofText titledText).tree variedTree := by
    rw [htree]
    exact .tail (.tail (.single hnull) horder) hunknown
  exact ⟨_, hread, (ofText_of_varies hread hsteps).2 variedText hvaried⟩

end TypedClient.Document
