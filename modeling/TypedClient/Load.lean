import TypedClient.Config.Reader
import TypedClient.Document.Reader
import TypedClient.Files.Disk

/-! Loading documents and settings, from texts and from a disk. -/

namespace TypedClient

/-- The name of a document that is given as a text alone. -/
def Document.defaultName : String := "swagger.json"

/-- Reads a document from a source. -/
def Document.ofSource (s : Source) : Except LoadError Document :=
  (Document.ofText s.text).mapError (.ofFault s.name)

namespace Files.Disk

/-- The text of a file, under its path. -/
def source (d : Disk) (path : String) : Except LoadError Source :=
  match d.readText? path with
  | some text => .ok ⟨path, text⟩
  | none => .error (.unreadable path)

def loadDocument (d : Disk) (path : String) : Except LoadError Document := do
  Document.ofSource (← d.source path)

def loadConfig (d : Disk) (path : String) : Except LoadError Config := do
  Config.ofSource (← d.source path)

/-- The settings at a path, or the defaults when nothing is there. -/
def loadConfigOrDefault (d : Disk) (path : String) : Except LoadError Config :=
  if d.contains path then d.loadConfig path else .ok .default

end Files.Disk

end TypedClient
