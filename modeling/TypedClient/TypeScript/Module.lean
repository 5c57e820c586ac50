import TypedClient.Text.Lines
import TypedClient.TypeScript.Function
import TypedClient.TypeScript.Interface

/-! A module of code: comments at the top, imports, and a body of elements, with
one empty line between neighbours. -/

namespace TypedClient.TypeScript

open Code

/-- An import statement: a whole module under a name, named exports, both, or neither. -/
structure Import where
  source : String
  whole : Option String
  named : List String
  typeOnly : Bool

def Import.statement (i : Import) : String :=
  let keyword := if i.typeOnly then "import type " else "import "
  let source := stringLiteral i.source
  match i.whole, i.named with
  | none, [] => "import " ++ source
  | none, names => keyword ++ r"{ " ++ ", ".intercalate names ++ r" } from " ++ source
  | some name, [] => keyword ++ "* as " ++ name ++ " from " ++ source
  | some name, names =>
    keyword ++ "* as " ++ name ++ r", { " ++ ", ".intercalate names ++ r" } from " ++ source

def Import.fragments (i : Import) : List Fragment := [.line i.statement]

/-- Lines of code as they are; empty ones carry no indentation. -/
def codeFragments (code : String) : List Fragment :=
  (Text.lines code).map fun line => if line.isEmpty then .blank else .line line

/-- An element of a module's body. -/
inductive Element
  | type (declaration : Declaration)
  | function (f : Function)
  | constant (c : Constant)
  | object (entries : List Entry)
  | code (text : String)

def Element.fragments : Element → List Fragment
  | .type declaration => declaration.fragments
  | .function f => f.fragments
  | .constant c => c.fragments
  | .object entries => objectFragments entries
  | .code text => codeFragments text

structure Module where
  header : List String
  imports : List Import
  body : List Element

namespace Module

/-- Appends a section, after an empty line when something was appended before. -/
def addSection (state : Buffer × Bool) (fragments : List Fragment) : Buffer × Bool :=
  ((if state.2 then state.1.blank else state.1).emitAll fragments, true)

/-- Appends a section that is left out when it is empty. -/
def addOptional (state : Buffer × Bool) (fragments : List Fragment) : Buffer × Bool :=
  if fragments.isEmpty then state else addSection state fragments

/-- The text of a module whose elements are given by their fragments. An element of the body is set
apart even when it holds no line. -/
def renderParts (header : List String) (imports : List Import) (body : List (List Fragment)) : String :=
  let top := addOptional (Buffer.empty, false) (Fragment.comments header)
  let opened := addOptional top (imports.flatMap Import.fragments)
  (body.foldl addSection opened).1.text

/-- The text of a module. -/
def render (m : Module) : String := renderParts m.header m.imports (m.body.map Element.fragments)

end Module

end TypedClient.TypeScript
