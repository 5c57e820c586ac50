import TypedClient.Proofs.Tokens
import TypedClient.TypeScript.TypeExpr

/-! Reading the text of a type expression. The brackets of an array bind to the
operand before them, `&` binds tighter than `|`, and parentheses group. The reader
is a machine over the lexical elements with a stack of what is open; each way of
spelling a type has a law that says what the machine reads and whether the scan for
outer operators finds one. -/

namespace TypedClient.TypeScript

/-- What a type expression says. Keywords count as names. -/
inductive TypeShape
  | name (name : String)
  | literal (value : String)
  /-- A name applied to arguments. -/
  | apply (head : String) (arguments : List TypeShape)
  | array (item : TypeShape)
  /-- The fields in order: the name, whether it is optional, the type. -/
  | object (fields : List (String × Bool × TypeShape))
  | union (members : List TypeShape)
  | intersection (parts : List TypeShape)

namespace TypeShape

/-- All of the given types at once; a single one stands for itself. -/
def all : List TypeShape → TypeShape
  | [part] => part
  | parts => .intersection parts

/-- One of the given types; a single one stands for itself. -/
def any : List TypeShape → TypeShape
  | [member] => member
  | members => .union members

end TypeShape

/-- A type expression outside all brackets: alternatives between `|`, each a list of operands
between `&`. All but the last alternative are finished. -/
structure Alternatives where
  finished : List (List TypeShape)
  current : List TypeShape

namespace Alternatives

/-- Nothing read yet. -/
def none : Alternatives := ⟨[], []⟩

instance : Inhabited Alternatives := ⟨none⟩

def single (operand : TypeShape) : Alternatives := ⟨[], [operand]⟩

/-- One more operand. -/
def push (a : Alternatives) (operand : TypeShape) : Alternatives :=
  ⟨a.finished, a.current ++ [operand]⟩

/-- Ends the current alternative. -/
def close (a : Alternatives) : Alternatives := ⟨a.finished ++ [a.current], []⟩

/-- What stands when the text of `b` goes on behind `a`: the operands of the first alternative of
`b` join the last one of `a`. -/
def followedBy (a b : Alternatives) : Alternatives :=
  match b.finished with
  | [] => ⟨a.finished, a.current ++ b.current⟩
  | first :: rest => ⟨a.finished ++ (a.current ++ first) :: rest, b.current⟩

/-- The type that the alternatives say. -/
def shape (a : Alternatives) : TypeShape := .any ((a.finished ++ [a.current]).map .all)

/-- Whether there is more than one operand. -/
def several (a : Alternatives) : Bool := !a.finished.isEmpty || a.current.length != 1

@[simp] theorem none_followedBy (a : Alternatives) : none.followedBy a = a := by
  cases a with
  | mk finished current => cases finished <;> simp [followedBy, none]

theorem followedBy_single (a : Alternatives) (operand : TypeShape) :
    a.followedBy (single operand) = a.push operand := rfl

theorem followedBy_assoc (a b c : Alternatives) :
    (a.followedBy b).followedBy c = a.followedBy (b.followedBy c) := by
  obtain ⟨bf, bc⟩ := b
  obtain ⟨cf, cc⟩ := c
  cases bf <;> cases cf <;> simp [followedBy]

theorem close_followedBy (a b c : Alternatives) :
    (a.followedBy b).close.followedBy c = a.followedBy (b.close.followedBy c) := by
  obtain ⟨bf, bc⟩ := b
  obtain ⟨cf, cc⟩ := c
  cases bf <;> cases cf <;> simp [followedBy, close]

end Alternatives

/-- An open bracket, with what was read in front of it. -/
inductive Frame
  | group (outer : Alternatives)
  /-- Behind `head<` and the arguments before the one being read. -/
  | argument (outer : Alternatives) (head : String) (before : List TypeShape)
  /-- Behind the key of a field, with the fields before it. -/
  | field (outer : Alternatives) (before : List (String × Bool × TypeShape)) (name : String)
    (optional : Bool)

/-- Where the reader of a type stands. -/
inductive Reading
  /-- An operand must come. -/
  | operand (stack : List Frame) (read : Alternatives)
  /-- An operand has come. -/
  | operator (stack : List Frame) (read : Alternatives)
  /-- Behind the opening bracket of an array. -/
  | bracket (stack : List Frame) (read : Alternatives)
  /-- The key of a field must come. -/
  | key (stack : List Frame) (outer : Alternatives) (before : List (String × Bool × TypeShape))
  /-- Behind the key of a field. -/
  | colon (stack : List Frame) (outer : Alternatives) (before : List (String × Bool × TypeShape))
    (name : String) (optional : Bool)

namespace Reading

/-- Makes the last operand the item of an array. -/
def arrayed (read : Alternatives) : Option Alternatives :=
  match read.current.getLast? with
  | none => none
  | some item => some ⟨read.finished, read.current.dropLast ++ [.array item]⟩

/-- Takes back a name that turns out to be applied. -/
def applied (stack : List Frame) (read : Alternatives) : Option Reading :=
  match read.current.getLast? with
  | some (.name head) =>
    some (.operand (.argument ⟨read.finished, read.current.dropLast⟩ head [] :: stack) .none)
  | _ => none

/-- A mark behind an operand. -/
def afterOperand (stack : List Frame) (read : Alternatives) (c : Char) : Option Reading :=
  if c = '|' then some (.operand stack read.close)
  else if c = '&' then some (.operand stack read)
  else if c = '[' then some (.bracket stack read)
  else if c = '<' then applied stack read
  else
    match stack with
    | .group outer :: stack =>
      if c = ')' then some (.operator stack (outer.push read.shape)) else none
    | .argument outer head before :: stack =>
      if c = ',' then some (.operand (.argument outer head (before ++ [read.shape]) :: stack) .none)
      else if c = '>' then
        some (.operator stack (outer.push (.apply head (before ++ [read.shape]))))
      else none
    | .field outer before name optional :: stack =>
      let fields := before ++ [(name, optional, read.shape)]
      if c = ',' then some (.key stack outer fields)
      else if c = '}' then some (.operator stack (outer.push (.object fields)))
      else none
    | [] => none

/-- Reads one element. -/
def step : Reading → Token → Option Reading
  | .operand stack read, .word name =>
    some (.operator stack (read.push (.name (String.ofList name))))
  | .operand stack read, .quoted value =>
    some (.operator stack (read.push (.literal (String.ofList value))))
  | .operand stack read, .mark c =>
    if c = '(' then some (.operand (.group read :: stack) .none)
    else if c = '{' then some (.key stack read [])
    else none
  | .operator stack read, .mark c => afterOperand stack read c
  | .bracket stack read, .mark c => if c = ']' then (arrayed read).map (.operator stack) else none
  | .key stack outer before, .word name =>
    some (.colon stack outer before (String.ofList name) false)
  | .key stack outer before, .quoted name =>
    some (.colon stack outer before (String.ofList name) false)
  | .key stack outer [], .mark c =>
    if c = '}' then some (.operator stack (outer.push (.object []))) else none
  | .colon stack outer before name optional, .mark c =>
    if c = ':' then some (.operand (.field outer before name optional :: stack) .none)
    else if c = '?' && !optional then some (.colon stack outer before name true)
    else none
  | _, _ => none

section Steps

variable (stack : List Frame) (read outer : Alternatives) (value : List Char) (c : Char)
  (before : List (String × Bool × TypeShape)) (name : String) (optional : Bool)

@[simp] theorem step_operand_word : (operand stack read).step (.word value) =
    some (.operator stack (read.push (.name (String.ofList value)))) := rfl

@[simp] theorem step_operand_quoted : (operand stack read).step (.quoted value) =
    some (.operator stack (read.push (.literal (String.ofList value)))) := rfl

@[simp] theorem step_operand_mark : (operand stack read).step (.mark c) =
    if c = '(' then some (.operand (.group read :: stack) .none)
    else if c = '{' then some (.key stack read [])
    else none := rfl

@[simp] theorem step_operator_mark :
    (operator stack read).step (.mark c) = afterOperand stack read c := rfl

@[simp] theorem step_bracket_mark : (bracket stack read).step (.mark c) =
    if c = ']' then (arrayed read).map (.operator stack) else none := rfl

@[simp] theorem step_key_word : (key stack outer before).step (.word value) =
    some (.colon stack outer before (String.ofList value) false) := by
  cases before <;> rfl

@[simp] theorem step_key_quoted : (key stack outer before).step (.quoted value) =
    some (.colon stack outer before (String.ofList value) false) := by
  cases before <;> rfl

@[simp] theorem step_key_mark : (key stack outer []).step (.mark c) =
    if c = '}' then some (.operator stack (outer.push (.object []))) else none := rfl

@[simp] theorem step_colon_mark : (colon stack outer before name optional).step (.mark c) =
    if c = ':' then some (.operand (.field outer before name optional :: stack) .none)
    else if c = '?' && !optional then some (.colon stack outer before name true)
    else none := rfl

end Steps

def run (r : Reading) (ts : List Token) : Option Reading := ts.foldlM step r

theorem run_append (r : Reading) (ts us : List Token) :
    r.run (ts ++ us) = (r.run ts).bind fun r => r.run us := by
  simp [run, List.foldlM_append]

theorem run_cons (r : Reading) (t : Token) (ts : List Token) :
    r.run (t :: ts) = (r.step t).bind fun r => r.run ts := by
  simp [run]

@[simp] theorem run_nil (r : Reading) : r.run [] = some r := rfl

end Reading

/-- Reads the text of a type expression, if it is one. -/
def readType (text : String) : Option TypeShape := do
  match ← Reading.run (.operand [] .none) (← tokens text) with
  | .operator [] read => some read.shape
  | _ => none

end TypedClient.TypeScript
