import TypedClient.Files.Disk

/-! Writing files: a file is written with the directories that lead to it, and a rule
says whether a path that is taken already may be written over. -/

namespace TypedClient.Files

/-- What to do when the path is taken. -/
inductive Rule
  | always
  /-- Leave what is there. -/
  | ifMissing
  deriving DecidableEq, Repr

/-- What was done. -/
inductive Written
  | written | skipped
  deriving DecidableEq, Repr

/-- A failed write: the step that failed, its path, and the cause. -/
inductive Failure
  | create (path : String) (cause : Cause)
  | write (path : String) (cause : Cause)

/-- The wording of a failed write. -/
def Failure.message : Failure → String
  | .create path cause => "failed to create " ++ path ++ ": " ++ cause.message
  | .write path cause => "failed to write " ++ path ++ ": " ++ cause.message

/-- A step on the disk that may fail. -/
abbrev DiskM := EStateM Failure Disk

/-- Names the step that a cause belongs to. -/
def DiskOp.named (op : DiskOp) (failure : Cause → Failure) : DiskM Unit := fun d =>
  match op d with
  | .ok () d => .ok () d
  | .error cause d => .error (failure cause) d

/-- Writes a text, after making the directory that holds it. -/
def writeText (path text : String) : DiskM Unit := do
  match parent? path with
  | none => pure ()
  | some dir =>
    if !dir.isEmpty then (makeDirectories dir).named (.create dir)
  (overwrite path (.text text)).named (.write path)

/-- Writes a text as the rule allows. -/
def writeFile (rule : Rule) (path text : String) : DiskM Written := do
  if rule == .ifMissing && (← get).contains path then return .skipped
  writeText path text
  return .written

end TypedClient.Files
