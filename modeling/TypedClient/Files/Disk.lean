import TypedClient.Files.Path

/-! A disk: directories and files under absolute names, and the directory in which
relative paths start. Every operation walks its path step by step; each step but
the last has to lead into a directory. There are no links. -/

namespace TypedClient.Files

/-- What a file holds. -/
inductive Content
  | text (s : String)
  /-- Bytes that are no text. -/
  | binary (bytes : List UInt8)
  deriving DecidableEq

inductive Node
  | directory
  | file (content : Content)
  deriving DecidableEq

/-- The names that lead from the root to a node. -/
abbrev Address := List String

structure Disk where
  /-- All nodes but the root. -/
  nodes : List (Address × Node)
  /-- Where relative paths start. -/
  current : Address

/-- Why an operation fails. -/
inductive Cause
  | notFound | alreadyExists | notDirectory | isDirectory | nameTooLong | nulInName
  deriving DecidableEq, Repr

/-- The wording of a cause. -/
def Cause.message : Cause → String
  | .notFound => "No such file or directory (os error 2)"
  | .alreadyExists => "File exists (os error 17)"
  | .notDirectory => "Not a directory (os error 20)"
  | .isDirectory => "Is a directory (os error 21)"
  | .nameTooLong => "File name too long (os error 36)"
  | .nulInName => "file name contained an unexpected NUL byte"

/-- The greatest length of a name, in bytes. -/
def maxName : Nat := 255

/-- The length, in bytes, that a path must stay below. -/
def maxPath : Nat := 4096

namespace Disk

/-- An empty working directory. -/
def empty : Disk := ⟨[(["work"], .directory)], ["work"]⟩

def find (d : Disk) : Address → Option Node
  | [] => some .directory
  | address => d.nodes.lookup address

/-- Puts a node in its place, instead of what was there. -/
def set (d : Disk) (address : Address) (node : Node) : Disk :=
  if d.nodes.any (·.1 == address) then
    { d with nodes := d.nodes.map fun (a, n) => (a, if a = address then node else n) }
  else { d with nodes := d.nodes ++ [(address, node)] }

/-- Whether the last name of an address is short enough to be looked up. -/
def fits (address : Address) : Bool :=
  (address.getLast?.map fun name => decide (name.utf8ByteSize ≤ maxName)).getD true

/-- One step from a directory. A name may lead to nothing. -/
def step (d : Disk) (here : Address) (segment : String) : Except Cause Address :=
  if !fits here then .error .nameTooLong
  else
    match d.find here with
    | none => .error .notFound
    | some (.file _) => .error .notDirectory
    | some .directory =>
      if segment == "." then .ok here
      else if segment == ".." then .ok here.dropLast
      else .ok (here ++ [segment])

/-- Where a path leads. -/
structure Target where
  address : Address
  /-- Whether the last step has a name, which may be free to take. -/
  named : Bool
  /-- Whether a slash follows, which asks for a directory. -/
  slashed : Bool

/-- Walks a path. -/
def walk (d : Disk) (path : String) : Except Cause Target := do
  if path.toList.contains '\x00' then throw .nulInName
  if path.isEmpty then throw .notFound
  if maxPath ≤ path.utf8ByteSize then throw .nameTooLong
  let parts := ((segments path.toList).filter fun part => !part.isEmpty).map String.ofList
  let start := if isAbsolute path then [] else d.current
  let address ← parts.foldlM d.step start
  let named := match parts.getLast? with
    | none => false
    | some last => last != "." && last != ".."
  return ⟨address, named, path.toList.getLast? == some '/'⟩

/-- Whether a path leads to a directory. -/
def isDirectory (d : Disk) (path : String) : Bool :=
  match d.walk path with
  | .ok target => d.find target.address == some .directory
  | .error _ => false

/-- Whether a path leads to anything. -/
def contains (d : Disk) (path : String) : Bool :=
  match d.walk path with
  | .error _ => false
  | .ok target =>
    match d.find target.address with
    | none => false
    | some .directory => true
    | some (.file _) => !target.slashed

/-- What the file at a path holds. -/
def read? (d : Disk) (path : String) : Option Content :=
  match d.walk path with
  | .error _ => none
  | .ok target =>
    match d.find target.address with
    | some (.file content) => if target.slashed then none else some content
    | _ => none

/-- The text at a path; none when there is no file or when it holds no text. -/
def readText? (d : Disk) (path : String) : Option String :=
  match d.read? path with
  | some (.text s) => some s
  | _ => none

end Disk

/-- An operation on a disk. What it did before a failure stays done. -/
abbrev DiskOp := EStateM Cause Disk Unit

/-- An operation that either changes the disk or fails without a change. -/
def DiskOp.ofExcept (f : Disk → Except Cause Disk) : DiskOp := do
  match f (← get) with
  | .ok d => set d
  | .error cause => throw cause

/-- Makes a directory where nothing is. -/
def makeDirectory (path : String) : DiskOp := .ofExcept fun d => do
  let target ← d.walk path
  if !Disk.fits target.address then throw .nameTooLong
  if (d.find target.address).isSome then throw .alreadyExists
  return d.set target.address .directory

/-- Makes a directory unless it is there. -/
def ensureDirectory (path : String) : DiskOp := do
  let d ← get
  match d.walk path with
  | .error cause => throw cause
  | .ok target =>
    match d.find target.address with
    | none => makeDirectory path
    | some .directory => return
    | some (.file _) => throw .alreadyExists

/-- Makes a directory and those above it that are missing, nearest first in the list. -/
def ensureAll : String → List String → DiskOp
  | path, [] => ensureDirectory path
  | path, above :: rest => do
    match (← get).walk path with
    | .error .notFound => do
      ensureAll above rest
      ensureDirectory path
    | _ => ensureDirectory path

/-- Makes a directory with all that leads to it. -/
def makeDirectories (path : String) : DiskOp :=
  if (parent? path).isNone then return else ensureAll path (ancestors path)

/-- Puts content into a file, which is made when it is missing. -/
def overwrite (path : String) (content : Content) : DiskOp := .ofExcept fun d => do
  let target ← d.walk path
  if target.slashed || !target.named then throw .isDirectory
  if !Disk.fits target.address then throw .nameTooLong
  match d.find target.address with
  | some .directory => throw .isDirectory
  | _ => return d.set target.address (.file content)

end TypedClient.Files
