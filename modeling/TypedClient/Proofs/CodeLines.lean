import TypedClient.Proofs.Layout

/-! The lines of a text that are code: all but those that begin, behind spaces, with two slashes.
Texts that end with a line feed have their code lines whatever stands around them. A comment has
none as long as its text is one line; what stands behind a line feed in it overruns the comment,
and is code unless it happens to begin with slashes itself. -/

namespace TypedClient

namespace Code

/-- The first characters of the line that are no spaces are two slashes. -/
def isComment (line : List Char) : Bool := ['/', '/'].isPrefixOf (line.dropWhile (· == ' '))

/-- The lines of a text that are no comments. What stands behind the last line feed is a line too,
if only an empty one. -/
def codeLines (text : String) : List (List Char) :=
  (text.toList.splitOn '\n').filter fun line => !isComment line

/-- The code among the lines that a line feed ends. -/
def codeOf (text : String) : List (List Char) :=
  (text.toList.splitOn '\n').dropLast.filter fun line => !isComment line

/-- What the text of a comment leaves behind as code. -/
def overrun (text : String) : List (List Char) :=
  (text.toList.splitOn '\n').tail.filter fun line => !isComment line

/-- The text is made of whole lines. -/
def Lined (text : String) : Prop := text = "" ∨ ∃ front, text = front ++ "\n"

/-! ### Texts -/

theorem Lined.line (text : String) : Lined (text ++ "\n") := .inr ⟨text, rfl⟩

theorem Lined.append {a b : String} (ha : Lined a) (hb : Lined b) : Lined (a ++ b) := by
  rcases hb with rfl | ⟨front, rfl⟩
  · simpa using ha
  · exact .inr ⟨a ++ front, (String.append_assoc ..).symm⟩

theorem splitOn_lineFeed (front rest : List Char) :
    (front ++ '\n' :: rest).splitOn '\n' = front.splitOn '\n' ++ rest.splitOn '\n' := by
  simp only [List.splitOn_eq_splitOnP]
  exact List.splitOnP_append_cons front rest (by simp)

theorem codeOf_line (text : String) : codeOf (text ++ "\n") = codeLines text := by
  have hsplit := splitOn_lineFeed text.toList []
  simp [codeOf, codeLines, hsplit]

theorem codeOf_append {a : String} (ha : Lined a) (b : String) :
    codeOf (a ++ b) = codeOf a ++ codeOf b := by
  rcases ha with rfl | ⟨front, rfl⟩
  · simp [codeOf]
  · have hsplit := splitOn_lineFeed front.toList b.toList
    have hne : b.toList.splitOn '\n' ≠ [] := by simp
    rw [codeOf_line]
    simp [codeOf, codeLines, hsplit, List.dropLast_append_of_ne_nil hne]

theorem codeLines_eq {text : String} (h : Lined text) : codeLines text = codeOf text ++ [[]] := by
  rcases h with rfl | ⟨front, rfl⟩
  · rfl
  · have hsplit := splitOn_lineFeed front.toList []
    rw [codeOf_line]
    simp [codeLines, hsplit, isComment]

/-- Texts with a line feed between neighbours have their code, with an empty line in front of each
but the first. -/
theorem codeOf_intercalate {text : String} {texts : List String} (h : Lined text)
    (hall : ∀ t ∈ texts, Lined t) :
    codeOf ("\n".intercalate (text :: texts)) =
      codeOf text ++ texts.flatMap fun t => [] :: codeOf t := by
  induction texts generalizing text with
  | nil => simp
  | cons next rest ih =>
    have hbehind := ih (hall next (by simp)) fun t ht => hall t (by simp [ht])
    have hblank : Lined "\n" := .line ""
    have hempty : codeOf "\n" = [[]] := by decide
    calc
      codeOf ("\n".intercalate (text :: next :: rest))
        = codeOf (text ++ "\n") ++ codeOf ("\n".intercalate (next :: rest)) := by
          rw [String.intercalate_cons_cons, codeOf_append (h.append hblank)]
      _ = codeOf text ++ (next :: rest).flatMap fun t => [] :: codeOf t := by
          rw [codeOf_append h, hempty, hbehind]
          simp

theorem Lined.intercalate {texts : List String} (h : ∀ t ∈ texts, Lined t) :
    Lined ("\n".intercalate texts) := by
  induction texts with
  | nil => exact .inl rfl
  | cons first rest ih =>
    have hfirst := h first (by simp)
    cases rest with
    | nil => simpa using hfirst
    | cons next rest =>
      rw [String.intercalate_cons_cons]
      exact (hfirst.append (.line "")).append (ih fun t ht => h t (by simp [ht]))

/-! ### Fragments -/

mutual

/-- The fragment stands for whole lines at any depth. -/
def Fragment.isLined : Fragment → Bool
  | .raw _ => false
  | .block _ body _ => areLined body
  | .sequence body => areLined body
  | .line _ => true
  | .blank => true
  | .comment _ => true

/-- All of the fragments do. -/
def areLined : List Fragment → Bool
  | [] => true
  | fragment :: rest => fragment.isLined && areLined rest

end

theorem areLined_eq (fragments : List Fragment) :
    areLined fragments = fragments.all Fragment.isLined := by
  induction fragments with
  | nil => rfl
  | cons fragment rest ih => simp [areLined, ih]

@[simp] theorem areLined_append (before after : List Fragment) :
    areLined (before ++ after) = (areLined before && areLined after) := by
  simp [areLined_eq]

@[simp] theorem areLined_comments (lines : List String) :
    areLined (Fragment.comments lines) = true := by
  simp [areLined_eq, Fragment.comments, Fragment.isLined]

theorem lined_closingAt (depth : Nat) (close : Option String) : Lined (closingAt depth close) := by
  cases close with
  | none => exact .inl rfl
  | some text => exact .line _

mutual

theorem lined_textAt (depth : Nat) (fragment : Fragment) (h : fragment.isLined = true) :
    Lined (fragment.textAt depth) := by
  match fragment with
  | .line text => exact .line _
  | .blank => exact .line ""
  | .raw text => nomatch h
  | .block header body close =>
    have hbody := lined_textsAt (depth + 1) body h
    exact ((Lined.line _).append hbody).append (lined_closingAt depth close)
  | .sequence body => exact lined_textsAt depth body h
  | .comment text => exact .line _

theorem lined_textsAt (depth : Nat) (fragments : List Fragment) (h : areLined fragments = true) :
    Lined (textsAt depth fragments) := by
  match fragments with
  | [] => exact .inl rfl
  | fragment :: rest =>
    obtain ⟨hfirst, hrest⟩ := Bool.and_eq_true_iff.mp h
    exact (lined_textAt depth fragment hfirst).append (lined_textsAt depth rest hrest)

end

theorem codeOf_textsAt_append (depth : Nat) {before : List Fragment} (after : List Fragment)
    (h : areLined before = true) : codeOf (textsAt depth (before ++ after)) =
      codeOf (textsAt depth before) ++ codeOf (textsAt depth after) := by
  rw [textsAt_append, codeOf_append (lined_textsAt depth before h)]

theorem codeOf_block (depth : Nat) (header : String) {body : List Fragment} (close : Option String)
    (h : areLined body = true) : codeOf (textsAt depth [.block header body close]) =
      codeOf (lineAt depth header) ++ codeOf (textsAt (depth + 1) body) ++
        codeOf (closingAt depth close) := by
  have hheader : Lined (lineAt depth header) := .line _
  rw [textsAt, textsAt, Fragment.textAt, String.append_empty,
    codeOf_append (hheader.append (lined_textsAt (depth + 1) body h)), codeOf_append hheader]

/-! ### Comments -/

theorem eq_space_of_mem_indentation {depth : Nat} {c : Char}
    (h : c ∈ (Buffer.indentation depth).toList) : c = ' ' :=
  List.eq_of_mem_replicate (toList_indentation depth ▸ h)

/-- What stands in front of the first line feed is part of the first line. -/
theorem splitOn_append {front : List Char} (h : '\n' ∉ front) (rest : List Char) :
    (front ++ rest).splitOn '\n' =
      (front ++ (rest.splitOn '\n').headD []) :: (rest.splitOn '\n').tail := by
  induction front with
  | nil =>
    have hne : rest.splitOn '\n' ≠ [] := by simp
    cases hrest : rest.splitOn '\n' with
    | nil => exact absurd hrest hne
    | cons line lines => simpa using hrest
  | cons c front ih =>
    obtain ⟨hc, hfront⟩ := List.ne_and_not_mem_of_not_mem_cons h
    have ih := ih hfront
    rw [List.splitOn_eq_splitOnP] at ih ⊢
    rw [List.cons_append, List.splitOnP_cons_eq_if_modifyHead, if_neg (by simpa using Ne.symm hc),
      ih]
    rfl

theorem isComment_append {front : List Char} (h : ∀ c ∈ front, c = ' ') (rest : List Char) :
    isComment (front ++ '/' :: '/' :: rest) = true := by
  unfold isComment
  rw [List.dropWhile_append_of_pos (by simpa using h)]
  rfl

theorem toList_commentLine (text : String) : ∃ blank : List Char, '\n' ∉ blank ∧
    (commentLine text).toList = '/' :: '/' :: (blank ++ text.toList) := by
  unfold commentLine
  split
  · next hempty =>
    rw [String.isEmpty_iff.mp hempty]
    exact ⟨[], by simp, rfl⟩
  · exact ⟨[' '], by simp, String.toList_append⟩

/-- The slashes make a comment of the first line, and of no other. -/
theorem codeOf_comment (depth : Nat) (text : String) :
    codeOf (lineAt depth (commentLine text)) = overrun text := by
  obtain ⟨blank, hblank, htext⟩ := toList_commentLine text
  have hspaces : ∀ c ∈ (Buffer.indentation depth).toList, c = ' ' :=
    fun c hc => eq_space_of_mem_indentation hc
  have hfront : '\n' ∉ (Buffer.indentation depth).toList ++ '/' :: '/' :: blank := by
    have hindentation : '\n' ∉ (Buffer.indentation depth).toList :=
      fun h => absurd (hspaces _ h) (by decide)
    simp [hindentation, hblank]
  have hline : (Buffer.indentation depth ++ commentLine text).toList =
      ((Buffer.indentation depth).toList ++ '/' :: '/' :: blank) ++ text.toList := by
    simp [htext]
  -- The first line holds the slashes and goes; the others are those of the text.
  rw [lineAt, codeOf_line, codeLines, hline, splitOn_append hfront, List.append_assoc,
    List.filter_cons_of_neg (by simpa using isComment_append hspaces _), overrun]

theorem lineFeed_notMem_intercalate {separator : String} (hseparator : '\n' ∉ separator.toList)
    {texts : List String} (h : ∀ text ∈ texts, '\n' ∉ text.toList) :
    '\n' ∉ (separator.intercalate texts).toList := by
  induction texts with
  | nil => simp
  | cons text rest ih =>
    obtain ⟨htext, hrest⟩ := List.forall_mem_cons.mp h
    have ih := ih hrest
    cases rest with
    | nil => simpa using htext
    | cons next rest =>
      rw [String.intercalate_cons_cons]
      simp only [String.toList_append, List.mem_append, not_or]
      exact ⟨⟨htext, hseparator⟩, ih⟩

theorem overrun_eq_nil {text : String} (h : '\n' ∉ text.toList) : overrun text = [] := by
  have hsplit := splitOn_append h []
  rw [List.append_nil] at hsplit
  simp [overrun, hsplit]

/-- A comment has the code that overruns it. -/
theorem codeOf_comments (depth : Nat) (lines : List String) :
    codeOf (textsAt depth (Fragment.comments lines)) = lines.flatMap overrun := by
  induction lines with
  | nil => rfl
  | cons text rest ih =>
    have hline : Lined (lineAt depth (commentLine text)) := .line _
    calc
      codeOf (textsAt depth (Fragment.comments (text :: rest)))
        = codeOf (lineAt depth (commentLine text)) ++
            codeOf (textsAt depth (Fragment.comments rest)) := codeOf_append hline _
      _ = overrun text ++ rest.flatMap overrun := by rw [codeOf_comment, ih]

end Code

/-! ### Modules -/

namespace TypeScript

open Code

theorem areLined_entryFragments (entries : List Entry) :
    areLined (entryFragments entries) = true := by
  induction entries using entryFragments.induct with
  | case1 => rfl
  | case2 entry => rfl
  | case3 entry rest _ ih => simpa [entryFragments, areLined, Fragment.isLined] using ih

theorem areLined_constant (c : Constant) : areLined c.fragments = true := rfl

theorem areLined_function (f : Function) : areLined f.fragments = areLined f.body := by
  simp [Function.fragments, areLined, Fragment.isLined]

mutual

theorem areLined_field (field : Field) : areLined field.fragments = true := by
  match field with
  | .plain name optional comments type =>
    simp [Field.fragments, areLined, Fragment.isLined]
  | .nested name optional comments fields =>
    have hfields := areLined_fields fields
    rw [Field.fragments, areLined_append, areLined_comments]
    split <;> simp [areLined, Fragment.isLined, hfields]

theorem areLined_fields (fields : List Field) : areLined (fieldFragments fields) = true := by
  match fields with
  | [] => rfl
  | field :: rest => simp [fieldFragments, areLined_field field, areLined_fields rest]

end

theorem areLined_declaration (d : Declaration) : areLined d.fragments = true := by
  match d with
  | .interface i =>
    rw [Declaration.fragments, Interface.fragments, areLined_append, areLined_comments]
    split <;> simp [areLined, Fragment.isLined, areLined_fields]
  | .alias a => simp [Declaration.fragments, Alias.fragments, areLined, Fragment.isLined]

/-- The code of a module: what overruns the comments at the top, then the code of each section
below, with an empty line in front of each. -/
theorem Module.codeLines_render {m : Module} (hheader : m.header ≠ [])
    (hbelow : ∀ fragments ∈ m.sectionsBelow, areLined fragments = true) :
    codeLines m.render = m.header.flatMap overrun ++
      (m.sectionsBelow.flatMap fun fragments => [] :: codeOf (Code.render fragments)) ++ [[]] := by
  have hlined : ∀ {fragments : List Fragment}, areLined fragments = true →
      Lined (Code.render fragments) := by
    intro fragments h
    rw [Code.render_eq]
    exact lined_textsAt 0 fragments h
  have hbelow : ∀ text ∈ m.sectionsBelow.map Code.render, Lined text := by
    intro text htext
    obtain ⟨fragments, hmem, rfl⟩ := List.mem_map.mp htext
    exact hlined (hbelow fragments hmem)
  have htop := hlined (areLined_comments m.header)
  have hsections : m.sections.map Code.render =
      Code.render (Fragment.comments m.header) :: m.sectionsBelow.map Code.render := by
    simp [sections, hheader]
  have hall := List.forall_mem_cons.mpr ⟨htop, hbelow⟩
  rw [render_eq_intercalate, hsections, codeLines_eq (.intercalate hall),
    codeOf_intercalate htop hbelow, List.flatMap_map, Code.render_eq, codeOf_comments]

end TypeScript

end TypedClient
