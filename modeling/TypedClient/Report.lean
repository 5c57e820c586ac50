import TypedClient.Generator

/-! What a command tells its user, as lines that say what they are. -/

namespace TypedClient

namespace Report

inductive Line
  | heading (name : String)
  | keyValue (key value : String)
  | item (text : String)
  /-- A file that was written. -/
  | added (text : String)
  /-- A finding; it goes to the error stream. -/
  | warning (text : String)
  | divider (label : String)
  | plain (text : String)
  | blank

def Line.render : Line → String
  | .heading name => name ++ ":"
  | .keyValue key value => key ++ ": " ++ value
  | .item text => "  - " ++ text
  | .added text => "  + " ++ text
  | .warning text => text
  | .divider label => "── " ++ label ++ " ──"
  | .plain text => text
  | .blank => ""

/-- Whether a line goes to the error stream. -/
def Line.isWarning : Line → Bool
  | .warning _ => true
  | _ => false

/-- What an API holds, as it is told after a check or a generation. -/
structure Summary where
  title : String
  version : String
  counts : Model.Counts
  deriving DecidableEq

def Summary.lines (s : Summary) : List Line :=
  [.plain (if s.version.isEmpty then s.title else s.title ++ " v" ++ s.version), .blank,
    .keyValue "Schemas" (toString s.counts.schemas ++ " (" ++ toString s.counts.enums ++ " enum)"),
    .keyValue "Request types" (toString s.counts.requestTypes),
    .heading ("Operations (" ++ toString s.counts.operations ++ ")")] ++
    s.counts.operationIds.map .item

end Report

open Report

/-- The findings of a check by severity, and a summary when none is an error. -/
structure CheckReport where
  spec : String
  errors : List String
  warnings : List String
  infos : List String
  summary : Option Summary

namespace CheckReport

/-- Warnings and notes leave a document valid. -/
def isValid (r : CheckReport) : Bool := r.errors.isEmpty

def lines (r : CheckReport) : List Line :=
  r.errors.map (fun message => .warning ("error: " ++ message)) ++
    r.warnings.map (fun message => .warning ("warning: " ++ message)) ++
    r.infos.map (fun message => .plain ("info: " ++ message)) ++
    (if r.warnings.isEmpty && r.errors.isEmpty then [] else [.blank]) ++
    if r.isValid then
      .plain ("✓ " ++ r.spec ++ " is valid") ::
        match r.summary with
        | none => []
        | some summary => .blank :: summary.lines
    else []

end CheckReport

/-- What a generation did. -/
inductive GenerationResult
  /-- The files that would be written. -/
  | preview (files : List GeneratedFile)
  /-- The files that were written below a directory, and where snapshots went if there are any. -/
  | written (outcome : Generator.Outcome) (dir : String) (snapshots : Option String)

structure GenerateReport where
  summary : Summary
  warnings : List String
  result : GenerationResult

namespace GenerateReport

def lines (r : GenerateReport) : List Line :=
  match r.result with
  | .written outcome dir snapshots =>
    (match snapshots with
      | none => []
      | some debug => [.keyValue "Pipeline snapshots written to" debug, .blank]) ++
    r.warnings.map (fun message => .warning ("warning: " ++ message)) ++ r.summary.lines ++
    [.blank, .heading ("Generated in " ++ dir)] ++ outcome.written.map .added ++
    outcome.skipped.map fun path => .item (path ++ " (unchanged)")
  | .preview files =>
    (files.flatMap fun file => [.divider file.path, .plain file.content]) ++
    [.divider "Summary", .plain (toString files.length ++ " files would be generated")]

end GenerateReport

end TypedClient
