import Mathlib.Data.List.Forall2
import TypedClient.Proofs.TypeReader

/-! What the text of a type expression reads as, one law for each way of spelling it.
A law also says whether the scan that decides about the parentheses of an array
finds an operator: it does exactly when the text has several operands. -/

namespace TypedClient.TypeScript

/-! ### The scan for outer operators -/

namespace TypeExpr

section Steps

variable (depth : Nat) (c : Char) (rest : List Char)

theorem hasOperator_nil (place : Place) : hasOperator place [] = false := rfl

theorem hasOperator_code : hasOperator (.code depth) (c :: rest) =
    if c = '\'' then hasOperator (.quoted depth) rest
    else if c = '{' || c = '(' || c = '[' || c = '<' then hasOperator (.code (depth + 1)) rest
    else if c = '}' || c = ')' || c = ']' || c = '>' then hasOperator (.code (depth - 1)) rest
    else if (c = '|' || c = '&') && depth = 0 then true
    else hasOperator (.code depth) rest := rfl

theorem hasOperator_quoted : hasOperator (.quoted depth) (c :: rest) =
    if c = '\\' then hasOperator (.escaped depth) rest
    else if c = '\'' then hasOperator (.code depth) rest
    else hasOperator (.quoted depth) rest := rfl

theorem hasOperator_escaped :
    hasOperator (.escaped depth) (c :: rest) = hasOperator (.quoted depth) rest := rfl

end Steps

/-- A scan for outer operators passes `text` as it stands in code, and finds one in it at depth
zero when `found` says so. -/
def Scans (text : List Char) (found : Bool) : Prop :=
  ∀ depth rest, hasOperator (.code depth) (text ++ rest) =
    ((depth == 0 && found) || hasOperator (.code depth) rest)

/-- The characters that a scan of code looks at. -/
def watched : List Char := ['\'', '{', '(', '[', '<', '}', ')', ']', '>', '|', '&']

theorem hasOperator_unwatched {c : Char} (h : c ∉ watched) (depth : Nat) (rest : List Char) :
    hasOperator (.code depth) (c :: rest) = hasOperator (.code depth) rest := by
  simp only [watched, List.mem_cons, List.not_mem_nil, or_false, not_or] at h
  simp [hasOperator_code, h]

namespace Scans

theorem nil : Scans [] false := fun depth rest => by simp

theorem append {t u : List Char} {x y : Bool} (ht : Scans t x) (hu : Scans u y) :
    Scans (t ++ u) (x || y) := by
  intro depth rest
  rw [List.append_assoc, ht, hu]
  cases depth == 0 <;> cases x <;> simp

theorem unwatched {t : List Char} (h : ∀ c ∈ t, c ∉ watched) : Scans t false := by
  intro depth rest
  induction t with
  | nil => simp
  | cons c t ih =>
    rw [List.cons_append, hasOperator_unwatched (h c (by simp)),
      ih fun d hd => h d (by simp [hd])]

/-- Inside brackets an operator is not an outer one. -/
theorem bracketed (opening closing : Char) (ho : opening ∈ ['{', '(', '[', '<'])
    (hc : closing ∈ ['}', ')', ']', '>']) {t : List Char} {x : Bool} (ht : Scans t x) :
    Scans (opening :: (t ++ [closing])) false := by
  intro depth rest
  have hopen : ∀ u, hasOperator (.code depth) (opening :: u) = hasOperator (.code (depth + 1)) u := by
    intro u
    simp only [List.mem_cons, List.not_mem_nil, or_false] at ho
    rcases ho with rfl | rfl | rfl | rfl <;> simp [hasOperator_code]
  have hclose : ∀ u, hasOperator (.code (depth + 1)) (closing :: u) = hasOperator (.code depth) u := by
    intro u
    simp only [List.mem_cons, List.not_mem_nil, or_false] at hc
    rcases hc with rfl | rfl | rfl | rfl <;> simp [hasOperator_code]
  rw [List.cons_append, hopen, List.append_assoc, ht]
  simp [hclose]

end Scans

theorem hasOperator_escapeChar (c : Char) (depth : Nat) (rest : List Char) :
    hasOperator (.quoted depth) (escapeChar c ++ rest) = hasOperator (.quoted depth) rest := by
  rcases escapeChar_cases c with ⟨hplain, hbackslash, hquote, _⟩ | ⟨d, hescape, _⟩
  · rw [hplain, List.singleton_append, hasOperator_quoted, if_neg hbackslash, if_neg hquote]
  · rw [hescape, List.cons_append, List.singleton_append, hasOperator_quoted, if_pos rfl,
      hasOperator_escaped]

theorem scans_literal (value : String) : Scans (stringLiteral value).toList false := by
  intro depth rest
  have h : ∀ cs : List Char, hasOperator (.quoted depth) (cs.flatMap escapeChar ++ '\'' :: rest) =
      hasOperator (.code depth) rest := by
    intro cs
    induction cs with
    | nil => simp [hasOperator_quoted]
    | cons c cs ih => rw [List.flatMap_cons, List.append_assoc, hasOperator_escapeChar, ih]
  simp [stringLiteral, literalChars, hasOperator_code, h]

theorem unwatched_of_continues {c : Char} (h : continuesIdentifier c = true) : c ∉ watched := by
  intro hc
  have hw : watched.all (fun c => !continuesIdentifier c) = true := by decide
  have := List.all_eq_true.mp hw c hc
  simp [h] at this

theorem scans_identifier {name : String} (h : isIdentifier name = true) :
    Scans name.toList false :=
  .unwatched fun c hc => unwatched_of_continues ((continues_of_isIdentifier h).2 c hc)

theorem scans_propertyKey (name : String) : Scans (propertyKey name).toList false := by
  unfold propertyKey
  split
  · next h => exact scans_identifier h
  · exact scans_literal name

end TypeExpr
/-- What the reader and the scan for outer operators find in the text of a type. -/
structure Reads (text : String) (a : Alternatives) : Prop where
  some_operand : a.current ≠ []
  read : ∃ ts, Lexes false text.toList ts ∧ ∀ stack before,
    (Reading.operand stack before).run ts = some (.operator stack (before.followedBy a))
  scan : TypeExpr.Scans text.toList a.several

theorem Reads.readType {text : String} {a : Alternatives} (h : Reads text a) :
    readType text = some a.shape := by
  obtain ⟨ts, hl, hr⟩ := h.read
  simp [TypeScript.readType, hl.tokens_eq, hr]

/-! ### Operands -/

theorem reads_name (name : String) (h : isIdentifier name = true) :
    Reads name (.single (.name name)) where
  some_operand := by simp [Alternatives.single]
  read := ⟨_, lex_identifier h, fun stack before => by
    simp [Reading.run_cons, Alternatives.followedBy_single]⟩
  scan := TypeExpr.scans_identifier h

theorem reads_literal (value : String) : Reads (stringLiteral value) (.single (.literal value)) where
  some_operand := by simp [Alternatives.single]
  read := ⟨_, lex_stringLiteral value, fun stack before => by
    simp [Reading.run_cons, Alternatives.followedBy_single]⟩
  scan := TypeExpr.scans_literal value

/-- Parentheses make one operand of what they hold. -/
theorem Reads.group {text : String} {a : Alternatives} (h : Reads text a) :
    Reads ("(" ++ text ++ ")") (.single a.shape) where
  some_operand := by simp [Alternatives.single]
  read := by
    obtain ⟨ts, hl, hr⟩ := h.read
    refine ⟨.mark '(' :: (ts ++ [.mark ')']), ?_, fun stack before => ?_⟩
    · simpa using (hl.append (Lexes.nil.mark (by decide)) (by decide)).mark (c := '(') (by decide)
    · simp [Reading.run_cons, Reading.run_append, Reading.afterOperand, hr,
        Alternatives.followedBy_single]
  scan := by simpa [Alternatives.several, Alternatives.single] using
    h.scan.bracketed '(' ')' (by simp) (by simp)

/-- The brackets of an array take a single operand. -/
theorem Reads.brackets {text : String} {item : TypeShape} (h : Reads text (.single item)) :
    Reads (text ++ "[]") (.single (.array item)) where
  some_operand := by simp [Alternatives.single]
  read := by
    obtain ⟨ts, hl, hr⟩ := h.read
    refine ⟨ts ++ [.mark '[', .mark ']'], ?_, fun stack before => ?_⟩
    · simpa using hl.append ((Lexes.nil.mark (c := ']') (by decide)).mark (c := '[') (by decide)) (by decide)
    · simp [Reading.run_cons, Reading.run_append, Reading.afterOperand, hr,
        Alternatives.followedBy_single, Alternatives.push, Reading.arrayed]
  scan := by
    have := h.scan.append (TypeExpr.Scans.nil.bracketed '[' ']' (by simp) (by simp))
    simpa [Alternatives.several, Alternatives.single] using this

/-- An array of any type: its item is grouped exactly when it has outer operators. -/
theorem Reads.array {text : String} {a : Alternatives} (h : Reads text a) :
    Reads (TypeExpr.array text) (.single (.array a.shape)) := by
  have hscan : TypeExpr.hasOperator (.code 0) text.toList = a.several := by
    have := h.scan 0 []
    simpa [TypeExpr.hasOperator_nil] using this
  rw [TypeExpr.array, hscan]
  split
  · have := h.group.brackets
    simpa [String.append_assoc] using this
  · next hs =>
    obtain ⟨operand, rfl⟩ : ∃ operand, a = .single operand := by
      obtain ⟨finished, current⟩ := a
      simp only [Alternatives.several, Bool.or_eq_true, not_or, Bool.not_eq_true, Bool.not_eq_false',
        List.isEmpty_iff, bne_eq_false_iff_eq, List.length_eq_one_iff] at hs
      obtain ⟨rfl, operand, rfl⟩ := hs
      exact ⟨operand, rfl⟩
    simpa [Alternatives.shape, Alternatives.single, TypeShape.all, TypeShape.any] using h.brackets

/-! ### Operators -/

theorem several_followedBy {a b : Alternatives} (ha : a.current ≠ []) (hb : b.current ≠ []) :
    (a.followedBy b).several = true := by
  obtain ⟨af, ac⟩ := a
  obtain ⟨bf, bc⟩ := b
  cases bf with
  | nil =>
    have := List.length_pos_iff.mpr ha
    have := List.length_pos_iff.mpr hb
    simp only [Alternatives.followedBy, Alternatives.several, List.length_append, Bool.or_eq_true,
      bne_iff_ne]
    simp only at *
    omega
  | cons first rest => simp [Alternatives.followedBy, Alternatives.several]

theorem several_close_followedBy (a b : Alternatives) :
    (a.close.followedBy b).several = true := by
  obtain ⟨bf, bc⟩ := b
  cases bf <;> simp [Alternatives.close, Alternatives.followedBy, Alternatives.several]

theorem followedBy_current_ne_nil (a : Alternatives) {b : Alternatives} (hb : b.current ≠ []) :
    (a.followedBy b).current ≠ [] := by
  obtain ⟨bf, bc⟩ := b
  cases bf <;> simp_all [Alternatives.followedBy]

theorem Reads.and {t u : String} {a b : Alternatives} (ha : Reads t a) (hb : Reads u b) :
    Reads (t ++ " & " ++ u) (a.followedBy b) where
  some_operand := followedBy_current_ne_nil a hb.some_operand
  read := by
    obtain ⟨ts, hlt, hrt⟩ := ha.read
    obtain ⟨us, hlu, hru⟩ := hb.read
    refine ⟨ts ++ .mark '&' :: us, ?_, fun stack before => ?_⟩
    · simpa using hlt.append ((hlu.space.mark (c := '&') (by decide)).space) rfl
    · simp [Reading.run_cons, Reading.run_append, Reading.afterOperand, hrt, hru,
        Alternatives.followedBy_assoc]
  scan := by
    have hm : TypeExpr.Scans " & ".toList true := fun depth rest => by
      cases depth <;> simp [TypeExpr.hasOperator_code]
    rw [several_followedBy ha.some_operand hb.some_operand]
    simpa using (ha.scan.append hm).append hb.scan

theorem Reads.or {t u : String} {a b : Alternatives} (ha : Reads t a) (hb : Reads u b) :
    Reads (t ++ " | " ++ u) (a.close.followedBy b) where
  some_operand := followedBy_current_ne_nil a.close hb.some_operand
  read := by
    obtain ⟨ts, hlt, hrt⟩ := ha.read
    obtain ⟨us, hlu, hru⟩ := hb.read
    refine ⟨ts ++ .mark '|' :: us, ?_, fun stack before => ?_⟩
    · simpa using hlt.append ((hlu.space.mark (c := '|') (by decide)).space) rfl
    · simp [Reading.run_cons, Reading.run_append, Reading.afterOperand, hrt, hru,
        Alternatives.close_followedBy]
  scan := by
    have hm : TypeExpr.Scans " | ".toList true := fun depth rest => by
      cases depth <;> simp [TypeExpr.hasOperator_code]
    rw [several_close_followedBy]
    simpa using (ha.scan.append hm).append hb.scan

/-! ### Inline objects and applied names -/

theorem Reads.apply (head : String) {t u : String} {a b : Alternatives} (hh : isIdentifier head = true)
    (ha : Reads t a) (hb : Reads u b) :
    Reads (head ++ "<" ++ t ++ ", " ++ u ++ ">") (.single (.apply head [a.shape, b.shape])) where
  some_operand := by simp [Alternatives.single]
  read := by
    obtain ⟨ts, hlt, hrt⟩ := ha.read
    obtain ⟨us, hlu, hru⟩ := hb.read
    refine ⟨.word head.toList :: .mark '<' :: (ts ++ .mark ',' :: (us ++ [.mark '>'])), ?_,
      fun stack before => ?_⟩
    · have hclose := hlu.append (Lexes.nil.mark (c := '>') (by decide)) rfl
      have harg := hlt.append (hclose.space.mark (c := ',') (by decide)) rfl
      simpa using (lex_identifier hh).append (harg.mark (c := '<') (by decide)) rfl
    · simp [Reading.run_cons, Reading.run_append, Reading.afterOperand,
        Reading.applied, hrt, hru, Alternatives.followedBy_single, Alternatives.push]
  scan := by
    have hsep : TypeExpr.Scans ", ".toList false := .unwatched (by simp [TypeExpr.watched])
    have hinner := (ha.scan.append hsep).append hb.scan
    have := (TypeExpr.scans_identifier hh).append
      (hinner.bracketed '<' '>' (by simp) (by simp))
    simpa [Alternatives.several, Alternatives.single] using this

theorem reads_openMap :
    Reads TypeExpr.openMap (.single (.apply "Record" [.name "string", .name "any"])) :=
  (reads_name "string" (by decide)).apply "Record" (by decide)
    (reads_name "any" (by decide))

/-- The field of an inline object and what it says. -/
def FieldReads (field : TypeExpr.Field) (said : String × Bool × TypeShape) : Prop :=
  ∃ a, Reads field.type a ∧ said = (field.name, field.optional, a.shape)

theorem step_nameToken (name : String) (stack : List Frame) (outer : Alternatives)
    (before : List (String × Bool × TypeShape)) :
    (Reading.key stack outer before).step (nameToken name) =
      some (.colon stack outer before name false) := by
  unfold nameToken
  split <;> cases before <;> simp

/-- A field reads as far as the type behind its key. -/
theorem FieldReads.read {field : TypeExpr.Field} {said : String × Bool × TypeShape}
    (h : FieldReads field said) :
    ∃ ts a, Lexes false field.text.toList ts ∧ said = (field.name, field.optional, a.shape) ∧
      ∀ stack outer before, (Reading.key stack outer before).run ts =
        some (.operator (.field outer before field.name field.optional :: stack) a) := by
  obtain ⟨name, optional, type⟩ := field
  obtain ⟨a, ha, rfl⟩ := h
  obtain ⟨ts, hl, hr⟩ := ha.read
  have hcolon := hl.space.mark (c := ':') (by decide)
  cases optional with
  | false =>
    refine ⟨nameToken name :: .mark ':' :: ts, a, ?_, rfl, fun stack outer before => ?_⟩
    · simpa [TypeExpr.Field.text] using (lex_propertyKey name).append hcolon rfl
    · rw [Reading.run_cons, step_nameToken]
      simp [Reading.run_cons, hr]
  | true =>
    refine ⟨nameToken name :: .mark '?' :: .mark ':' :: ts, a, ?_, rfl, fun stack outer before => ?_⟩
    · simpa [TypeExpr.Field.text] using
        (lex_propertyKey name).append (hcolon.mark (c := '?') (by decide)) rfl
    · rw [Reading.run_cons, step_nameToken]
      simp [Reading.run_cons, hr]

theorem FieldReads.scan {field : TypeExpr.Field} {said : String × Bool × TypeShape}
    (h : FieldReads field said) : ∃ x, TypeExpr.Scans field.text.toList x := by
  obtain ⟨a, ha, -⟩ := h
  have hmark : TypeExpr.Scans (if field.optional then "?" else "").toList false := by
    split <;> exact .unwatched (by simp [TypeExpr.watched])
  have hcolon : TypeExpr.Scans ": ".toList false := .unwatched (by simp [TypeExpr.watched])
  have := ((TypeExpr.scans_propertyKey field.name).append hmark).append (hcolon.append ha.scan)
  exact ⟨_, by simpa [TypeExpr.Field.text] using this⟩

/-- Fields in order, up to the closing brace. -/
theorem run_fields {fields : List TypeExpr.Field} {said : List (String × Bool × TypeShape)}
    (h : List.Forall₂ FieldReads fields said) (hne : fields ≠ []) :
    ∃ ts, Lexes false (", ".intercalate (fields.map TypeExpr.Field.text)).toList ts ∧
      ∀ stack outer before, (Reading.key stack outer before).run (ts ++ [.mark '}']) =
        some (.operator stack (outer.push (.object (before ++ said)))) := by
  induction h with
  | nil => exact absurd rfl hne
  | @cons field s fields said hf hrest ih =>
    obtain ⟨ts, a, hl, rfl, hr⟩ := hf.read
    cases fields with
    | nil =>
      cases hrest
      refine ⟨ts, by simpa using hl, fun stack outer before => ?_⟩
      simp [Reading.run_append, Reading.run_cons, hr, Reading.afterOperand]
    | cons next fields =>
      obtain ⟨us, hlu, hru⟩ := ih (by simp)
      refine ⟨ts ++ .mark ',' :: us, ?_, fun stack outer before => ?_⟩
      · simpa [String.intercalate_cons_cons] using
          hl.append (hlu.space.mark (c := ',') (by decide)) rfl
      · rw [List.append_assoc, Reading.run_append, hr, Option.bind_some, List.cons_append]
        simp [Reading.run_cons, Reading.afterOperand, hru]

theorem scan_fields {fields : List TypeExpr.Field} {said : List (String × Bool × TypeShape)}
    (h : List.Forall₂ FieldReads fields said) :
    ∃ x, TypeExpr.Scans (", ".intercalate (fields.map TypeExpr.Field.text)).toList x := by
  induction h with
  | nil => exact ⟨_, .nil⟩
  | @cons field s fields said hf _ ih =>
    obtain ⟨x, hx⟩ := hf.scan
    cases fields with
    | nil => exact ⟨x, by simpa using hx⟩
    | cons next fields =>
      obtain ⟨y, hy⟩ := ih
      have hsep : TypeExpr.Scans ", ".toList false := .unwatched (by simp [TypeExpr.watched])
      have := hx.append (hsep.append hy)
      exact ⟨_, by simpa [String.intercalate_cons_cons] using this⟩

theorem reads_object {fields : List TypeExpr.Field} {said : List (String × Bool × TypeShape)}
    (h : List.Forall₂ FieldReads fields said) :
    Reads (TypeExpr.object fields) (.single (.object said)) := by
  cases fields with
  | nil =>
    cases h
    refine ⟨by simp [Alternatives.single], ⟨[.mark '{', .mark '}'], ?_, fun _ _ => rfl⟩, ?_⟩
    · exact (Lexes.nil.mark (by decide)).mark (by decide)
    · exact TypeExpr.Scans.nil.bracketed '{' '}' (by simp) (by simp)
  | cons field fields =>
    obtain ⟨ts, hl, hr⟩ := run_fields h (by simp)
    obtain ⟨x, hx⟩ := scan_fields h
    have hspace : TypeExpr.Scans [' '] false := .unwatched (by simp [TypeExpr.watched])
    refine ⟨by simp [Alternatives.single], ⟨.mark '{' :: (ts ++ [.mark '}']), ?_,
      fun stack before => ?_⟩, ?_⟩
    · have hclose := hl.append ((Lexes.nil.mark (c := '}') (by decide)).space) rfl
      simpa [TypeExpr.object] using hclose.space.mark (c := '{') (by decide)
    · rw [Reading.run_cons]
      simp [hr, Alternatives.followedBy_single]
    · have := ((hspace.append hx).append hspace).bracketed '{' '}'
        (by simp) (by simp)
      simpa [TypeExpr.object, Alternatives.several, Alternatives.single] using this

end TypedClient.TypeScript
