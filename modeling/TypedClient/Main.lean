import Std.Time.DateTime.Timestamp
import TypedClient.Clock
import TypedClient.CommandLine.Footprint

/-! The program. The part of the machine's disk that a command may touch is read, the
command is carried out on it, and what it changed is written back. -/

namespace TypedClient.Program

open Files

/-- The path of an address. -/
def absolutePath (address : Address) : String := "/" ++ "/".intercalate address

/-- What stands at an address of the machine. A file that cannot be read counts as one without
text. -/
def nodeAt (address : Address) : IO (Option Node) := do
  let entry : IO.FS.DirEntry := ⟨"/", absolutePath address⟩
  if ← entry.path.isDir then return some .directory
  if !(← entry.path.pathExists) then return none
  try
    let bytes ← IO.FS.readBinFile entry.path
    match String.fromUTF8? bytes with
    | some text => return some (.file (.text text))
    | none => return some (.file (.binary bytes.toList))
  catch _ => return some (.file (.binary []))

/-- Reads the nodes at addresses that are not known yet. -/
def load (d : Disk) (addresses : List Address) : IO Disk :=
  addresses.foldlM (fun d address => do
    if (d.find address).isSome then return d
    match ← nodeAt address with
    | none => return d
    | some node => return d.set address node) d

/-- Writes a node to the machine. -/
def store (address : Address) : Node → IO Unit
  | .directory => IO.FS.createDir (absolutePath address)
  | .file (.text text) => IO.FS.writeFile (absolutePath address) text
  | .file (.binary bytes) => IO.FS.writeBinFile (absolutePath address) ⟨bytes.toArray⟩

/-- The disk as far as a command may touch it: first the settings, then what they name. -/
def view (command : Command) (current : Address) : IO Disk := do
  let mut disk : Disk := ⟨[], current⟩
  for _ in [1, 2] do
    disk ← load disk ((command.footprint disk).flatMap (trail current))
  return disk

def currentAddress : IO Address := do
  let path ← IO.currentDir
  return ((segments path.toString.toList).map String.ofList).filter (· != "")

/-- The time on the machine. -/
def now : IO String := do
  let time ← Std.Time.Timestamp.now
  return Clock.text time.toMillisecondsSinceUnixEpoch.val.toNat

end TypedClient.Program

open TypedClient in
/-- Runs a command line. -/
def main (words : List String) : IO UInt32 := do
  let before ← match Command.ofArguments words with
    | .ok command => Program.view command (← Program.currentAddress)
    | .error _ => pure .empty
  let (outcome, after) := execute words (← Program.now) before
  (after.changesSince before).forM fun (address, node) => Program.store address node
  outcome.output.forM IO.println
  outcome.errors.forM IO.eprintln
  return outcome.exit.toUInt32
