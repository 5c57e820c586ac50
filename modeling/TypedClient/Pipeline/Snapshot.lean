import TypedClient.Pipeline.Run

/-! Snapshots of the context, one after each phase, as files for inspection. -/

namespace TypedClient.Pipeline

open Json Files

/-- What a snapshot shows of the context. -/
def snapshot (phase : String) (c : Context) : Value :=
  .object ([("phase", .string phase)] ++
    (c.api.map fun api => ("ir", api.toJson)).toList ++
    (c.counts.map fun counts => ("computed", counts.toJson)).toList ++
    [("diagnostics", .array (c.diagnostics.map Diagnostic.toJson))])

/-- A step on the disk. -/
def Step.ofDisk (op : DiskM Unit) : Step Disk Unit := fun session =>
  match op session.world with
  | .ok () disk => .ok () { session with world := disk }
  | .error failure disk => .error (.disk failure) { session with world := disk }

/-- The file of a snapshot. -/
def snapshotPath (dir phase : String) : String := join dir (phase ++ ".json")

/-- Writes a text into a directory, which is made first. -/
def writeInto (dir path text : String) : DiskM Unit := do
  (makeDirectories dir).named (.create dir)
  (overwrite path (.text text)).named (.write path)

/-- Writes a snapshot into `dir` after each phase. -/
def snapshots (dir : String) : Plugin Disk where
  before _ := pure ()
  after phase := do
    let session ← get
    Step.ofDisk (writeInto dir (snapshotPath dir phase) (snapshot phase session.context).pretty)

end TypedClient.Pipeline
