import TypedClient.Proofs.CodeLines
import TypedClient.Proofs.QuotedNames

/-! The lines of an interface. A line is a row at a depth: a comment, a field with its type, a nested
object without fields, the first line of a nested object, or the brace that closes one. Each kind is
told by how it begins or ends, whatever the names are, and each line is read back with its depth. The
text of a field is made of such lines. -/

namespace TypedClient

open Code

namespace Code

/-! ### Lines -/

/-- The lines of a text that a line feed ends. -/
def linesOf (text : String) : List (List Char) := (text.toList.splitOn '\n').dropLast

theorem linesOf_line {text : String} (h : '\n' ∉ text.toList) (rest : String) :
    linesOf (text ++ "\n" ++ rest) = text.toList :: linesOf rest := by
  have hline := splitOn_append h []
  rw [List.append_nil] at hline
  have hsplit := splitOn_lineFeed text.toList rest.toList
  have hne : rest.toList.splitOn '\n' ≠ [] := by simp
  have htext : (text ++ "\n" ++ rest).toList = text.toList ++ '\n' :: rest.toList := by simp
  rw [linesOf, htext, hsplit, hline, List.dropLast_append_of_ne_nil hne]
  simp [linesOf]

end Code

namespace TypeScript

/-! ### Rows -/

/-- What stands on one line of an interface. -/
inductive Row
  | comment (text : String)
  | plain (name : String) (optional : Bool) (type : String)
  /-- A nested object without fields. -/
  | empty (name : String) (optional : Bool)
  /-- The first line of a nested object. -/
  | opening (name : String) (optional : Bool)
  | closing

/-- A row at a depth. -/
structure Line where
  depth : Nat
  row : Row

def Row.text : Row → String
  | .comment text => commentLine text
  | .plain name optional type => fieldLabel name optional ++ type
  | .empty name optional => fieldLabel name optional ++ "{}"
  | .opening name optional => fieldLabel name optional ++ r"{"
  | .closing => r"}"

/-- The characters of a line: two spaces per level, then the row. -/
def Line.chars (line : Line) : List Char := List.replicate (2 * line.depth) ' ' ++ line.row.text.toList

/-- Comments at a depth. -/
def commentRows (depth : Nat) (comments : List String) : List Line :=
  comments.map fun text => ⟨depth, .comment text⟩

mutual

/-- The lines of a field. -/
def Field.lines (depth : Nat) : Field → List Line
  | .plain name optional comments type =>
    commentRows depth comments ++ [⟨depth, .plain name optional type⟩]
  | .nested name optional comments fields =>
    commentRows depth comments ++
      if fields.isEmpty then [⟨depth, .empty name optional⟩]
      else ⟨depth, .opening name optional⟩ :: (fieldLines (depth + 1) fields ++ [⟨depth, .closing⟩])

def fieldLines (depth : Nat) : List Field → List Line
  | [] => []
  | field :: rest => field.lines depth ++ fieldLines depth rest

end

/-! ### Readers of a line -/

/-- A row that says what stands behind the label of a field. -/
def Row.ofValue (name : String) (optional : Bool) (value : List Char) : Row :=
  if value = ['{'] then .opening name optional
  else if value = ['{', '}'] then .empty name optional
  else .plain name optional (String.ofList value)

/-- Reads the row of a field: its key, whether it is optional, and what stands behind. -/
def readFieldRow (text : List Char) : Option Row :=
  match readKey text with
  | some (name, ':' :: ' ' :: value) => some (.ofValue (String.ofList name) false value)
  | some (name, '?' :: ':' :: ' ' :: value) => some (.ofValue (String.ofList name) true value)
  | _ => none

/-- Reads a row. Comments begin with slashes, and a brace alone closes. -/
def readRow : List Char → Option Row
  | ['/', '/'] => some (.comment "")
  | '/' :: '/' :: ' ' :: text => some (.comment (String.ofList text))
  | ['}'] => some .closing
  | text => readFieldRow text

/-- Reads a line with its depth. The spaces in front have to be even in number. -/
def readLine (line : List Char) : Option Line :=
  let spaces := (line.takeWhile (· == ' ')).length
  if spaces % 2 = 0 then (readRow (line.dropWhile (· == ' '))).map (⟨spaces / 2, ·⟩) else none

/-- A type on one line that cannot be taken for the braces of a nested object. -/
def IsTypeLine (type : String) : Prop :=
  '\n' ∉ type.toList ∧ ∃ c ∈ type.toList, c ≠ '{' ∧ c ≠ '}'

/-- A row that is read back, where its comment is a line or its type. -/
def Row.Readable : Row → Prop
  | .comment text => '\n' ∉ text.toList
  | .plain _ _ type => IsTypeLine type
  | _ => True

theorem IsTypeLine.ne_braces {type : String} (h : IsTypeLine type) :
    type.toList ≠ ['{'] ∧ type.toList ≠ ['{', '}'] := by
  obtain ⟨_, c, hc, hopen, hclose⟩ := h
  constructor
  · intro hbrace
    rw [hbrace] at hc
    exact hopen (List.mem_singleton.mp hc)
  · intro hbraces
    rw [hbraces] at hc
    simp [hopen, hclose] at hc

/-- A label in front of a value: the key, the mark of an optional field, and a colon. -/
theorem fieldLabel_append (name : String) (optional : Bool) (value : List Char) :
    (fieldLabel name optional).toList ++ value =
      (propertyKey name).toList ++ ((if optional then ['?'] else []) ++ ':' :: ' ' :: value) := by
  cases optional <;> simp [fieldLabel]

theorem readFieldRow_label (name : String) (optional : Bool) (value : List Char) :
    readFieldRow ((fieldLabel name optional).toList ++ value) =
      some (.ofValue name optional value) := by
  have hstart : startsWord ((if optional then ['?'] else []) ++ ':' :: ' ' :: value) = false := by
    cases optional <;> rfl
  rw [readFieldRow, fieldLabel_append, readKey_propertyKey name hstart]
  cases optional <;> simp

/-- A key begins with a quote, or with what goes on with a word. -/
theorem exists_cons_propertyKey (name : String) : ∃ c rest, (propertyKey name).toList = c :: rest ∧
    (c = '\'' ∨ continuesIdentifier c = true) := by
  unfold propertyKey
  split
  · next hname =>
    obtain ⟨hne, hall⟩ := continues_of_isIdentifier hname
    obtain ⟨c, rest, hcons⟩ := List.exists_cons_of_ne_nil hne
    exact ⟨c, rest, hcons, .inr (hall c (by simp [hcons]))⟩
  · have hliteral : (stringLiteral name).toList =
        '\'' :: (name.toList.flatMap escapeChar ++ ['\'']) := by
      simp [stringLiteral, literalChars]
    exact ⟨'\'', _, hliteral, .inl rfl⟩

/-- The first character of a field tells its row from comments and closing braces. -/
theorem readRow_label (name : String) (optional : Bool) (value : List Char) :
    readRow ((fieldLabel name optional).toList ++ value) = some (.ofValue name optional value) := by
  obtain ⟨c, rest, hcons, hc⟩ := exists_cons_propertyKey name
  have hslash : c ≠ '/' := by rintro rfl; revert hc; decide
  have hbrace : c ≠ '}' := by rintro rfl; revert hc; decide
  rw [← readFieldRow_label, fieldLabel_append, hcons, List.cons_append, readRow]
  · simp [hslash]
  · simp [hslash]
  · simp [hbrace]

/-- What is written on a row is read back. -/
theorem readRow_text {row : Row} (h : row.Readable) : readRow row.text.toList = some row := by
  cases row with
  | comment text =>
    rw [Row.text, commentLine]
    split
    · next hempty =>
      rw [String.isEmpty_iff.mp hempty]
      rfl
    · simp [readRow]
  | plain name optional type =>
    obtain ⟨hbrace, hbraces⟩ := IsTypeLine.ne_braces h
    rw [Row.text, String.toList_append, readRow_label, Row.ofValue, if_neg hbrace, if_neg hbraces,
      String.ofList_toList]
  | empty name optional =>
    rw [Row.text, String.toList_append, readRow_label]
    rfl
  | opening name optional =>
    rw [Row.text, String.toList_append, readRow_label]
    rfl
  | closing => rfl

theorem head?_text (row : Row) : row.text.toList.head?.any (· == ' ') = false := by
  have hlabel : ∀ name optional value,
      ((fieldLabel name optional ++ value).toList.head?.any (· == ' ')) = false := by
    intro name optional value
    obtain ⟨c, rest, hcons, hc⟩ := exists_cons_propertyKey name
    have hspace : c ≠ ' ' := by rintro rfl; revert hc; decide
    simp [fieldLabel, hcons, hspace]
  cases row with
  | comment text =>
    obtain ⟨blank, _, htext⟩ := toList_commentLine text
    rw [Row.text, htext]
    rfl
  | plain name optional type => exact hlabel name optional type
  | empty name optional => exact hlabel name optional _
  | opening name optional => exact hlabel name optional _
  | closing => rfl

/-- What is written on a line is read back, with its depth. -/
theorem readLine_chars {line : Line} (h : line.row.Readable) : readLine line.chars = some line := by
  obtain ⟨depth, row⟩ := line
  have hspaces : ∀ c ∈ List.replicate (2 * depth) ' ', (c == ' ') = true := by simp
  obtain ⟨htake, hdrop⟩ := takeWhile_dropWhile_append hspaces (head?_text row)
  rw [readLine, Line.chars, htake, hdrop]
  simp [readRow_text h]

/-! ### Fields with readable types -/

/-- The comments of a field are lines, and its types have a property, at any depth. -/
inductive Field.Typed (P : String → Prop) : Field → Prop
  | plain {name optional comments type} (hcomments : ∀ text ∈ comments, '\n' ∉ text.toList)
    (htype : P type) : Field.Typed P (.plain name optional comments type)
  | nested {name optional comments fields} (hcomments : ∀ text ∈ comments, '\n' ∉ text.toList)
    (hfields : ∀ field ∈ fields, Field.Typed P field) :
    Field.Typed P (.nested name optional comments fields)

theorem Field.Typed.mono {P Q : String → Prop} (h : ∀ type, P type → Q type) {field : Field}
    (hfield : field.Typed P) : field.Typed Q := by
  induction hfield with
  | plain hcomments htype => exact .plain hcomments (h _ htype)
  | nested hcomments _ ih => exact .nested hcomments ih

theorem readable_commentRows {comments : List String} (h : ∀ text ∈ comments, '\n' ∉ text.toList)
    (depth : Nat) : ∀ line ∈ commentRows depth comments, line.row.Readable := by
  intro line hline
  obtain ⟨text, htext, rfl⟩ := List.mem_map.mp hline
  exact h text htext

theorem fieldLines_eq (depth : Nat) (fields : List Field) :
    fieldLines depth fields = fields.flatMap (Field.lines depth) := by
  induction fields with
  | nil => rfl
  | cons field rest ih => rw [fieldLines, ih, List.flatMap_cons]

/-- The lines of a field are read back. -/
theorem Field.Typed.readable {field : Field} (h : field.Typed IsTypeLine) (depth : Nat) :
    ∀ line ∈ field.lines depth, line.row.Readable := by
  induction h generalizing depth with
  | @plain name optional comments type hcomments htype =>
    intro line hline
    rcases List.mem_append.mp hline with hline | hline
    · exact readable_commentRows hcomments depth line hline
    · rw [List.mem_singleton.mp hline]
      exact htype
  | @nested name optional comments fields hcomments _ ih =>
    intro line hline
    rw [Field.lines, fieldLines_eq] at hline
    rcases List.mem_append.mp hline with hline | hline
    · exact readable_commentRows hcomments depth line hline
    split at hline
    · rw [List.mem_singleton.mp hline]
      trivial
    · simp only [List.mem_cons, List.mem_append, List.mem_flatMap, List.not_mem_nil, or_false] at hline
      rcases hline with rfl | ⟨field, hfield, hline⟩ | rfl
      · trivial
      · exact ih field hfield (depth + 1) line hline
      · trivial

theorem readable_fieldLines {fields : List Field} (h : ∀ field ∈ fields, field.Typed IsTypeLine)
    (depth : Nat) : ∀ line ∈ fieldLines depth fields, line.row.Readable := by
  intro line hline
  rw [fieldLines_eq] at hline
  obtain ⟨field, hfield, hline⟩ := List.mem_flatMap.mp hline
  exact (h field hfield).readable depth line hline

theorem lineFeed_notMem_text {row : Row} (h : row.Readable) : '\n' ∉ row.text.toList := by
  have hlabel : ∀ name optional value, '\n' ∉ value.toList →
      '\n' ∉ (fieldLabel name optional ++ value).toList := by
    intro name optional value hvalue
    have hkey := lineFeed_notMem_propertyKey name
    cases optional <;> simp [fieldLabel, hkey, hvalue]
  cases row with
  | comment text =>
    obtain ⟨blank, hblank, htext⟩ := toList_commentLine text
    have htext' : '\n' ∉ text.toList := h
    rw [Row.text, htext]
    simp [hblank, htext']
  | plain name optional type => exact hlabel name optional type h.1
  | empty name optional => exact hlabel name optional _ (by decide)
  | opening name optional => exact hlabel name optional _ (by decide)
  | closing => decide

/-! ### Texts -/

/-- The text of a line at its depth. -/
def Line.text (line : Line) : String := lineAt line.depth line.row.text

theorem linesOf_join {lines : List Line} (h : ∀ line ∈ lines, line.row.Readable) (rest : String) :
    linesOf (String.join (lines.map Line.text) ++ rest) = lines.map Line.chars ++ linesOf rest := by
  induction lines with
  | nil => simp
  | cons line lines ih =>
    obtain ⟨hline, hlines⟩ := List.forall_mem_cons.mp h
    have hchars : (Buffer.indentation line.depth ++ line.row.text).toList = line.chars := by
      rw [String.toList_append, toList_indentation, Line.chars]
    have hbreak : '\n' ∉ (Buffer.indentation line.depth ++ line.row.text).toList := by
      rw [String.toList_append, toList_indentation]
      simpa using lineFeed_notMem_text hline
    rw [List.map_cons, String.join_cons, Line.text, lineAt, String.append_assoc, linesOf_line hbreak,
      hchars, ih hlines]
    rfl

theorem textsAt_comments (depth : Nat) (comments : List String) :
    textsAt depth (Fragment.comments comments) =
      String.join ((commentRows depth comments).map Line.text) := by
  induction comments with
  | nil => rfl
  | cons text rest ih =>
    have hfirst : textsAt depth (Fragment.comments (text :: rest)) =
        lineAt depth (commentLine text) ++ textsAt depth (Fragment.comments rest) := rfl
    rw [hfirst, ih]
    simp [commentRows, Line.text, Row.text]

mutual

/-- The text of a field is made of its lines. -/
theorem textsAt_field (depth : Nat) (field : Field) :
    textsAt depth field.fragments = String.join ((field.lines depth).map Line.text) := by
  match field with
  | .plain name optional comments type =>
    rw [Field.fragments, Field.lines, textsAt_append, textsAt_comments, List.map_append,
      String.join_append]
    simp [textsAt, Fragment.textAt, Line.text, Row.text]
  | .nested name optional comments fields =>
    have hfields := textsAt_fields (depth + 1) fields
    rw [Field.fragments, Field.lines, textsAt_append, textsAt_comments, List.map_append,
      String.join_append]
    split
    · simp [textsAt, Fragment.textAt, Line.text, Row.text]
    · simp [textsAt, Fragment.textAt, Line.text, Row.text, closingAt, hfields, String.append_assoc]

theorem textsAt_fields (depth : Nat) (fields : List Field) :
    textsAt depth (fieldFragments fields) = String.join ((fieldLines depth fields).map Line.text) := by
  match fields with
  | [] => rfl
  | field :: rest =>
    rw [fieldFragments, fieldLines, textsAt_append, textsAt_field depth field, textsAt_fields depth rest,
      List.map_append, String.join_append]

end

end TypeScript

end TypedClient
