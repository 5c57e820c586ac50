import TypedClient.Code.Fragment

/-! A text buffer that knows its depth of indentation. -/

namespace TypedClient.Code

structure Buffer where
  text : String
  depth : Nat

namespace Buffer

/-- An empty buffer at depth zero. -/
def empty : Buffer := ⟨"", 0⟩

/-- Two spaces for each level. -/
def indentation (depth : Nat) : String := String.join (List.replicate depth "  ")

/-- Text as it is. -/
def raw (b : Buffer) (text : String) : Buffer := { b with text := b.text ++ text }

/-- An indented line. -/
def line (b : Buffer) (text : String) : Buffer :=
  ((b.raw (indentation b.depth)).raw text).raw "\n"

/-- An empty line, without indentation. -/
def blank (b : Buffer) : Buffer := b.raw "\n"

/-- A comment line; empty text gives bare slashes. -/
def comment (b : Buffer) (text : String) : Buffer :=
  b.line (if text.isEmpty then "//" else "// " ++ text)

def indent (b : Buffer) : Buffer := { b with depth := b.depth + 1 }

/-- One level less; depth zero stays. -/
def dedent (b : Buffer) : Buffer := { b with depth := b.depth - 1 }

/-- A closing line, if there is one. -/
def closing (b : Buffer) : Option String → Buffer
  | none => b
  | some text => b.line text

mutual

/-- Appends a fragment. A block indents its body by one level and closes at its own. -/
def emit (b : Buffer) : Fragment → Buffer
  | .line text => b.line text
  | .blank => b.blank
  | .raw text => b.raw text
  | .block header body close => (emitAll (b.line header).indent body).dedent.closing close
  | .sequence body => emitAll b body
  | .comment text => b.comment text

/-- Appends fragments one after the other. -/
def emitAll (b : Buffer) : List Fragment → Buffer
  | [] => b
  | fragment :: rest => emitAll (emit b fragment) rest

end

end Buffer

/-- The text of fragments at depth zero. -/
def render (fragments : List Fragment) : String := (Buffer.empty.emitAll fragments).text

end TypedClient.Code
