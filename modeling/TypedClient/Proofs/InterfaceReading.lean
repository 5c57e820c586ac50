import Mathlib.Data.List.Basic
import TypedClient.Proofs.InterfaceLines
import TypedClient.Proofs.SchemaMeaning

/-! An interface is read back from its text. The reader goes from line to line and keeps the objects
that are open; a line is taken only at the depth at which it is due. What is written for a field, at
any depth, adds that field, and so the tree of fields comes back. That the types do not get in the
way is a fact about the types of schemas: they are one line each, and never braces alone. -/

namespace TypedClient

open Code Config Model

namespace TypeScript

/-! ### The tree of fields -/

/-- A nested object that is open: its label and comments, and the fields in front of it. -/
structure OpenObject where
  name : String
  optional : Bool
  comments : List String
  before : List Field

/-- What has been read of the fields of an interface. -/
structure Progress where
  /-- The open objects, from the innermost to the outermost. -/
  enclosing : List OpenObject
  /-- The fields so far of the innermost open object. -/
  fields : List Field
  /-- The comments above the field that is still to come. -/
  comments : List String

namespace Progress

/-- The depth of fields. -/
def level (p : Progress) : Nat := p.enclosing.length + 1

def add (p : Progress) (field : Field) : Progress := ⟨p.enclosing, p.fields ++ [field], []⟩

/-- The progress with comments above the field that is still to come. -/
def under (p : Progress) (comments : List String) : Progress := ⟨p.enclosing, p.fields, comments⟩

/-- The progress behind the first line of a nested object. -/
def enter (p : Progress) (name : String) (optional : Bool) : Progress :=
  ⟨⟨name, optional, p.comments, p.fields⟩ :: p.enclosing, [], []⟩

/-- The depth at which a row has to stand. A brace closes where its object was opened. -/
def due (p : Progress) : Row → Nat
  | .closing => p.enclosing.length
  | _ => p.level

def accept (p : Progress) : Row → Option Progress
  | .comment text => some (p.under (p.comments ++ [text]))
  | .plain name optional type => some (p.add (.plain name optional p.comments type))
  | .empty name optional => some (p.add (.nested name optional p.comments []))
  | .opening name optional => some (p.enter name optional)
  | .closing =>
    match p.enclosing with
    | [] => none
    | o :: outer =>
      if p.comments = [] then
        some ⟨outer, o.before ++ [.nested o.name o.optional o.comments p.fields], []⟩
      else none

/-- Takes a line that stands at the right depth. -/
def take (p : Progress) (line : Line) : Option Progress :=
  if line.depth = p.due line.row then p.accept line.row else none

def step (p : Progress) (line : List Char) : Option Progress := (readLine line).bind p.take

end Progress

/-- Reads the fields of an interface from the lines below its first, which a brace ends. -/
def readFields (lines : List (List Char)) : Option (List Field) :=
  if lines.getLast? = some ['}'] then
    match lines.dropLast.foldlM Progress.step ⟨[], [], []⟩ with
    | some ⟨[], fields, []⟩ => some fields
    | _ => none
  else none

/-- Reads the first line of an interface: its name, and whether fields follow. -/
def readHeader (line : List Char) : Option (List Char × Bool) :=
  match "export interface ".toList.isPrefixOf? line with
  | none => none
  | some behind =>
    match [' ', '{'].isSuffixOf? behind with
    | some name => some (name, true)
    | none => ([' ', '{', '}'].isSuffixOf? behind).map ((·, false))

/-- Reads an interface from its lines, under comments that have been read. -/
def readBelow (comments : List String) : List (List Char) → Option Interface
  | [] => none
  | line :: rest =>
    match readHeader line with
    | some (name, true) => (readFields rest).map fun fields => ⟨String.ofList name, comments, fields⟩
    | some (name, false) => if rest = [] then some ⟨String.ofList name, comments, []⟩ else none
    | none =>
      match readRow line with
      | some (.comment text) => readBelow (comments ++ [text]) rest
      | _ => none

/-- Reads an interface line by line. -/
def readInterface (text : String) : Option Interface := readBelow [] (linesOf text)

/-! ### Runs over lines -/

namespace Progress

/-- A run over lines that have been read. -/
def run (p : Progress) (lines : List Line) : Option Progress := lines.foldlM take p

theorem run_append (p : Progress) (front behind : List Line) :
    p.run (front ++ behind) = (p.run front).bind (·.run behind) :=
  List.foldlM_append

/-- A row at the depth at which it is due is accepted. -/
theorem run_due (p : Progress) (row : Row) (rest : List Line) :
    p.run (⟨p.due row, row⟩ :: rest) = (p.accept row).bind (·.run rest) := by
  have htake : p.take ⟨p.due row, row⟩ = p.accept row := if_pos rfl
  rw [run, List.foldlM_cons, htake]
  rfl

theorem run_comments (p : Progress) (comments : List String) :
    p.run (commentRows p.level comments) = some (p.under (p.comments ++ comments)) := by
  induction comments generalizing p with
  | nil =>
    rw [List.append_nil]
    rfl
  | cons text rest ih =>
    have hfirst := p.run_due (.comment text) (commentRows p.level rest)
    have hrest : (p.under (p.comments ++ [text])).run (commentRows p.level rest) =
        some (p.under (p.comments ++ [text] ++ rest)) := ih (p.under (p.comments ++ [text]))
    rw [List.append_assoc] at hrest
    exact hfirst.trans hrest

/-- The lines of a field under its comments, where a field is due. -/
theorem run_commented (p : Progress) (h : p.comments = []) (comments : List String)
    (behind : List Line) :
    p.run (commentRows p.level comments ++ behind) = (p.under comments).run behind := by
  rw [run_append, run_comments, h, List.nil_append]
  rfl

mutual

/-- The lines of a field add it, where a field is due. -/
theorem run_field (p : Progress) (h : p.comments = []) (field : Field) :
    p.run (field.lines p.level) = some (p.add field) := by
  match field with
  | .plain name optional comments type =>
    rw [Field.lines, run_commented p h]
    exact (p.under comments).run_due (.plain name optional type) []
  | .nested name optional comments [] =>
    rw [Field.lines, run_commented p h]
    exact (p.under comments).run_due (.empty name optional) []
  | .nested name optional comments (first :: rest) =>
    have hopen : (p.under comments).run (⟨p.level, .opening name optional⟩ ::
        (fieldLines (p.level + 1) (first :: rest) ++ [⟨p.level, .closing⟩])) =
        ((p.under comments).enter name optional).run
          (fieldLines (p.level + 1) (first :: rest) ++ [⟨p.level, .closing⟩]) :=
      (p.under comments).run_due (.opening name optional) _
    have hbody : ((p.under comments).enter name optional).run
        (fieldLines (p.level + 1) (first :: rest)) =
        some ⟨⟨name, optional, comments, p.fields⟩ :: p.enclosing, first :: rest, []⟩ :=
      ((p.under comments).enter name optional).run_fields rfl (first :: rest)
    have hclose := run_due ⟨⟨name, optional, comments, p.fields⟩ :: p.enclosing, first :: rest, []⟩
      .closing []
    calc
      p.run (Field.lines p.level (.nested name optional comments (first :: rest)))
        = (p.under comments).run (⟨p.level, .opening name optional⟩ ::
            (fieldLines (p.level + 1) (first :: rest) ++ [⟨p.level, .closing⟩])) :=
          run_commented p h comments _
      _ = some (p.add (.nested name optional comments (first :: rest))) := by
          rw [hopen, run_append, hbody, Option.bind_some]
          exact hclose

/-- The lines of fields add them, one after the other. -/
theorem run_fields (p : Progress) (h : p.comments = []) (fields : List Field) :
    p.run (fieldLines p.level fields) = some ⟨p.enclosing, p.fields ++ fields, []⟩ := by
  match fields with
  | [] =>
    rw [List.append_nil, ← h]
    rfl
  | field :: rest =>
    have hrest : (p.add field).run (fieldLines p.level rest) =
        some ⟨p.enclosing, p.fields ++ [field] ++ rest, []⟩ := (p.add field).run_fields rfl rest
    rw [fieldLines, run_append, run_field p h field, Option.bind_some, hrest, List.append_assoc]
    rfl

end

end Progress

/-! ### Interfaces -/

theorem isPrefixOf?_header (name ending : String) : "export interface ".toList.isPrefixOf?
    ("export interface " ++ name ++ ending).toList = some (name.toList ++ ending.toList) :=
  List.isPrefixOf?_eq_some_iff_append_eq.mpr (by simp)

theorem readHeader_opening (name : String) :
    readHeader ("export interface " ++ name ++ r" {").toList = some (name.toList, true) := by
  have hname : [' ', '{'].isSuffixOf? (name.toList ++ r" {".toList) = some name.toList :=
    List.isSuffixOf?_eq_some_iff_append_eq.mpr rfl
  simp only [readHeader, isPrefixOf?_header, hname]

/-- The last brace tells an interface without fields from one whose fields follow. -/
theorem readHeader_closed (name : String) :
    readHeader ("export interface " ++ name ++ " {}").toList = some (name.toList, false) := by
  have hname : [' ', '{', '}'].isSuffixOf? (name.toList ++ " {}".toList) =
      some name.toList := List.isSuffixOf?_eq_some_iff_append_eq.mpr rfl
  have hother : [' ', '{'].isSuffixOf? (name.toList ++ " {}".toList) = none := by
    refine Option.eq_none_iff_forall_ne_some.mpr fun front h => ?_
    have hlast := congrArg List.getLast? (List.isSuffixOf?_eq_some_iff_append_eq.mp h)
    simp at hlast
  simp only [readHeader, isPrefixOf?_header, hother, hname, Option.map_some]

/-- The lines of an interface. -/
def Interface.lines (i : Interface) : List (List Char) :=
  (commentRows 0 i.comments).map Line.chars ++
    if i.fields.isEmpty then [("export interface " ++ i.name ++ " {}").toList]
    else ("export interface " ++ i.name ++ r" {").toList ::
      ((fieldLines 1 i.fields).map Line.chars ++ [['}']])

theorem linesOf_interface {i : Interface} (hname : '\n' ∉ i.name.toList)
    (hcomments : ∀ text ∈ i.comments, '\n' ∉ text.toList)
    (hfields : ∀ field ∈ i.fields, field.Typed IsTypeLine) :
    linesOf (Code.render i.fragments) = i.lines := by
  have hline : ∀ ending : String, '\n' ∉ ending.toList →
      '\n' ∉ ("export interface " ++ i.name ++ ending).toList := by
    intro ending hending
    simp [hname, hending]
  have hnil : linesOf "" = [] := rfl
  rw [render_eq, Interface.fragments, textsAt_append, textsAt_comments,
    linesOf_join (readable_commentRows hcomments 0), Interface.lines]
  congr 1
  split
  · have htext : textsAt 0 [.line ("export interface " ++ i.name ++ " {}")] =
        "export interface " ++ i.name ++ " {}" ++ "\n" ++ "" := by
      simp [textsAt, Fragment.textAt, lineAt, Buffer.indentation]
    rw [htext, linesOf_line (hline _ (by decide)), hnil]
  · have htext : textsAt 0 [.block ("export interface " ++ i.name ++ r" {") (fieldFragments i.fields)
        (some r"}")] = "export interface " ++ i.name ++ r" {" ++ "\n" ++
          (String.join ((fieldLines 1 i.fields).map Line.text) ++ (r"}" ++ "\n" ++ "")) := by
      simp [textsAt, Fragment.textAt, lineAt, closingAt, Buffer.indentation, textsAt_fields,
        String.append_assoc]
    rw [htext, linesOf_line (hline _ (by decide)), linesOf_join (readable_fieldLines hfields 1),
      linesOf_line (by decide), hnil]
    rfl

/-- The lines of readable fields are taken as they are read. -/
theorem foldlM_step {lines : List Line} (h : ∀ line ∈ lines, line.row.Readable) (p : Progress) :
    (lines.map Line.chars).foldlM Progress.step p = p.run lines := by
  induction lines generalizing p with
  | nil => rfl
  | cons line lines ih =>
    obtain ⟨hline, hlines⟩ := List.forall_mem_cons.mp h
    have hstep : p.step line.chars = p.take line := by
      rw [Progress.step, readLine_chars hline, Option.bind_some]
    rw [List.map_cons, List.foldlM_cons, Progress.run, List.foldlM_cons, hstep]
    exact bind_congr fun q => ih hlines q

theorem readFields_lines {fields : List Field} (h : ∀ field ∈ fields, field.Typed IsTypeLine) :
    readFields ((fieldLines 1 fields).map Line.chars ++ [['}']]) = some fields := by
  have hrun : Progress.run ⟨[], [], []⟩ (fieldLines 1 fields) = some ⟨[], fields, []⟩ :=
    Progress.run_fields ⟨[], [], []⟩ rfl fields
  rw [readFields, if_pos (List.getLast?_concat ..), List.dropLast_concat,
    foldlM_step (readable_fieldLines h 1), hrun]

/-- Comments above an interface are put behind those that have been read. -/
theorem readBelow_comments (read : List String) {comments : List String}
    (h : ∀ text ∈ comments, '\n' ∉ text.toList) (behind : List (List Char)) :
    readBelow read ((commentRows 0 comments).map Line.chars ++ behind) =
      readBelow (read ++ comments) behind := by
  induction comments generalizing read with
  | nil =>
    rw [List.append_nil]
    rfl
  | cons text rest ih =>
    obtain ⟨htext, hrest⟩ := List.forall_mem_cons.mp h
    have hrow : readRow (commentLine text).toList = some (.comment text) :=
      @readRow_text (.comment text) htext
    have hheader : readHeader (commentLine text).toList = none := by
      obtain ⟨blank, _, hslashes⟩ := toList_commentLine text
      rw [hslashes]
      rfl
    have hline : (Line.mk 0 (.comment text)).chars = (commentLine text).toList := rfl
    rw [commentRows, List.map_cons, List.map_cons, hline, List.cons_append, readBelow, hheader, hrow]
    exact (ih (read ++ [text]) hrest).trans (by rw [List.append_assoc]; rfl)

theorem readInterface_lines {i : Interface} (hname : '\n' ∉ i.name.toList)
    (hcomments : ∀ text ∈ i.comments, '\n' ∉ text.toList)
    (hfields : ∀ field ∈ i.fields, field.Typed IsTypeLine) :
    readInterface (Code.render i.fragments) = some i := by
  obtain ⟨name, comments, fields⟩ := i
  rw [readInterface, linesOf_interface hname hcomments hfields, Interface.lines,
    readBelow_comments [] hcomments, List.nil_append]
  dsimp only
  split
  · next hempty =>
    rw [readBelow, readHeader_closed, List.isEmpty_iff.mp hempty]
    simp
  · rw [readBelow, readHeader_opening]
    simp only [readFields_lines hfields, Option.map_some, String.ofList_toList]

/-! ### Types of schemas -/

/-- The type is that of a schema whose references are identifiers. -/
def IsSchemaType (type : String) : Prop :=
  ∃ compose schema, (∀ name ∈ schema.references, isIdentifier name = true) ∧
    type = schemaType compose schema

theorem isTypeLine_identifier {name : String} (h : isIdentifier name = true) : IsTypeLine name := by
  obtain ⟨hne, hall⟩ := continues_of_isIdentifier h
  obtain ⟨c, rest, hcons⟩ := List.exists_cons_of_ne_nil hne
  have hc : c ∈ name.toList := by simp [hcons]
  refine ⟨fun hfeed => ?_, c, hc, ?_, ?_⟩
  · exact absurd (hall '\n' hfeed) (by decide)
  · rintro rfl
    exact absurd (hall _ hc) (by decide)
  · rintro rfl
    exact absurd (hall _ hc) (by decide)

/-- The types without parts. -/
theorem isTypeLine_fixed : ∀ type ∈ ["string", "number", "boolean", "never", TypeExpr.unknown,
    TypeExpr.openMap], IsTypeLine type := by
  have hletter : ∀ type ∈ ["string", "number", "boolean", "never", TypeExpr.unknown,
      TypeExpr.openMap], '\n' ∉ type.toList ∧ 'n' ∈ type.toList := by decide
  intro type htype
  obtain ⟨hline, hn⟩ := hletter type htype
  exact ⟨hline, 'n', hn, by decide⟩

theorem isTypeLine_union (values : List String) : IsTypeLine (TypeExpr.union values) := by
  have hliterals : ∀ text ∈ values.map stringLiteral, '\n' ∉ text.toList := by
    intro text htext hfeed
    obtain ⟨value, _, rfl⟩ := List.mem_map.mp htext
    exact (lineBreak_notMem_stringLiteral value '\n' hfeed).1 rfl
  have hseparator : '\n' ∉ " | ".toList := by decide
  cases values with
  | nil => exact isTypeLine_fixed "never" (by simp)
  | cons value rest =>
    have hquote : '\'' ∈ (" | ".intercalate ((value :: rest).map stringLiteral)).toList := by
      cases rest <;> simp [stringLiteral, literalChars, String.intercalate_cons_cons]
    rw [TypeExpr.union_cons]
    exact ⟨lineFeed_notMem_intercalate hseparator hliterals, '\'', hquote, by decide⟩

theorem isTypeLine_array {item : String} (h : '\n' ∉ item.toList) :
    IsTypeLine (TypeExpr.array item) := by
  have hbracketed : IsTypeLine (item ++ "[]") := ⟨by simp [h], ']', by simp, by decide⟩
  have hgrouped : IsTypeLine ("(" ++ item ++ ")[]") := ⟨by simp [h], ']', by simp, by decide⟩
  unfold TypeExpr.array
  split
  · exact hgrouped
  · exact hbracketed

theorem isTypeLine_object {fields : List TypeExpr.Field} (hne : fields ≠ [])
    (h : ∀ field ∈ fields, '\n' ∉ field.type.toList) : IsTypeLine (TypeExpr.object fields) := by
  have htexts : ∀ text ∈ fields.map TypeExpr.Field.text, '\n' ∉ text.toList := by
    intro text htext
    obtain ⟨field, hfield, rfl⟩ := List.mem_map.mp htext
    have hkey := lineFeed_notMem_propertyKey field.name
    unfold TypeExpr.Field.text
    split <;> simp [hkey, h field hfield]
  have hseparator : '\n' ∉ ", ".toList := by decide
  have hjoined := lineFeed_notMem_intercalate hseparator htexts
  have hempty : fields.isEmpty = false := by simpa using hne
  rw [TypeExpr.object, hempty]
  exact ⟨by simpa using hjoined, ' ', by simp, by decide⟩

theorem isTypeLine_intersection {types : List String} (hne : types ≠ [])
    (h : ∀ type ∈ types, IsTypeLine type) : IsTypeLine (TypeExpr.intersection types) := by
  have hseparator : '\n' ∉ " & ".toList := by decide
  cases types with
  | nil => exact absurd rfl hne
  | cons type rest =>
    obtain ⟨_, c, hc, hbraces⟩ := h type (by simp)
    have hmem : c ∈ (" & ".intercalate (type :: rest)).toList := by
      cases rest <;> simp [String.intercalate_cons_cons, hc]
    exact ⟨lineFeed_notMem_intercalate hseparator fun t ht => (h t ht).1, c, hmem, hbraces⟩

/-- The type of a schema is one line, and never braces alone. -/
theorem isTypeLine_schemaType (compose : Compose) (s : Schema)
    (names : ∀ name ∈ s.references, isIdentifier name = true) : IsTypeLine (schemaType compose s) := by
  induction s using Schema.byChildren with
  | step shape description ih =>
    have hchild : ∀ child ∈ shape.children, IsTypeLine (schemaType compose child) :=
      fun child hc => ih child hc fun name hname => names name (Shape.references_of_child hc hname)
    rw [schemaType]
    cases shape with
    | reference name =>
      exact isTypeLine_identifier (names name (by simp [Schema.references, Shape.references]))
    | scalar kind => exact isTypeLine_fixed (scalarType kind) (by cases kind <;> decide)
    | literals values => exact isTypeLine_union values
    | array item => exact isTypeLine_array (hchild item (by simp [Shape.children])).1
    | object properties required =>
      cases properties with
      | nil => exact isTypeLine_fixed TypeExpr.openMap (by simp)
      | cons p rest =>
        rw [shapeType, fieldTypes_eq]
        refine isTypeLine_object (by simp) fun field hfield => ?_
        obtain ⟨q, hq, rfl⟩ := List.mem_map.mp hfield
        exact (hchild q.2 (List.mem_map_of_mem hq)).1
    | composed branches =>
      have hbranches : ∀ type ∈ branches.map (schemaType compose), IsTypeLine type := by
        intro type htype
        obtain ⟨b, hb, rfl⟩ := List.mem_map.mp htype
        exact hchild b hb
      rw [shapeType, branchTypes_eq]
      cases branches with
      | nil => cases compose <;> exact isTypeLine_fixed TypeExpr.unknown (by simp)
      | cons branch rest =>
        cases compose with
        | first => exact hchild branch (by simp [Shape.children])
        | intersection => exact isTypeLine_intersection (by simp) hbranches
    | unknown => exact isTypeLine_fixed TypeExpr.unknown (by simp)

/-- The text of an interface determines it. Where its name and all comments are one line each, and
the types of its fields are types of schemas whose references are identifiers, the lines of the text
are two spaces deeper for each level, and reading them gives back the tree of fields, with names,
order, optional marks, types and comments. -/
theorem readInterface_render (i : Interface) (hname : '\n' ∉ i.name.toList)
    (hcomments : ∀ text ∈ i.comments, '\n' ∉ text.toList)
    (hfields : ∀ field ∈ i.fields, field.Typed IsSchemaType) :
    linesOf (Code.render i.fragments) = i.lines ∧ readInterface (Code.render i.fragments) = some i := by
  have htypes : ∀ type, IsSchemaType type → IsTypeLine type := by
    rintro _ ⟨compose, schema, names, rfl⟩
    exact isTypeLine_schemaType compose schema names
  have hlines : ∀ field ∈ i.fields, field.Typed IsTypeLine :=
    fun field h => (hfields field h).mono htypes
  exact ⟨linesOf_interface hname hcomments hlines, readInterface_lines hname hcomments hlines⟩

/-- An interface with a key that has to be quoted, and with nested objects that look alike. -/
def listRequest : Interface :=
  ⟨"ListRequest", ["Lists pets.", ""],
    [.plain r"it's: {" false [r"{"] "string[]",
      .nested "query" true [] [.plain "limit" true ["// at most"] "number", .nested "order" false [] []],
      .nested "?" true [] []]⟩

theorem listRequest_read : '\n' ∉ listRequest.name.toList ∧
    (∀ text ∈ listRequest.comments, '\n' ∉ text.toList) ∧
    (∀ field ∈ listRequest.fields, field.Typed IsSchemaType) ∧
    linesOf (Code.render listRequest.fragments) = listRequest.lines ∧
    readInterface (Code.render listRequest.fragments) = some listRequest := by
  have hname : '\n' ∉ listRequest.name.toList := by decide
  have hcomments : ∀ text ∈ listRequest.comments, '\n' ∉ text.toList := by decide
  have hstrings : IsSchemaType "string[]" :=
    ⟨.first, .mk (.array (.mk (.scalar .string) none)) none, by decide, by decide⟩
  have hnumber : IsSchemaType "number" := ⟨.first, .mk (.scalar .number) none, by decide, by decide⟩
  have hempty : ∀ {name optional}, (Field.nested name optional [] []).Typed IsSchemaType :=
    .nested (List.forall_mem_nil _) (List.forall_mem_nil _)
  have hquery : (Field.nested "query" true [] [.plain "limit" true ["// at most"] "number",
      .nested "order" false [] []]).Typed IsSchemaType :=
    .nested (List.forall_mem_nil _) (List.forall_mem_cons.mpr ⟨.plain (by decide) hnumber,
      List.forall_mem_singleton.mpr hempty⟩)
  have hfields : ∀ field ∈ listRequest.fields, field.Typed IsSchemaType :=
    List.forall_mem_cons.mpr ⟨.plain (by decide) hstrings,
      List.forall_mem_cons.mpr ⟨hquery, List.forall_mem_singleton.mpr hempty⟩⟩
  exact ⟨hname, hcomments, hfields, readInterface_render listRequest hname hcomments hfields⟩

end TypeScript

end TypedClient
