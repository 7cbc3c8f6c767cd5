import ProcProfile.Disk
import ProcProfile.Json.Printer
import ProcProfile.Json.Reader
import ProcProfile.Report.Reader

/-!
# Report files

Reports and dumps are written to files as JSON documents; directories that lead to the file are made.

Main definitions: `Disk.writeReport`, `Disk.readReport`, `Disk.writeDump`, `Disk.readDump`.
-/

namespace ProcProfile

namespace Disk

/-- Writes a document to a file. -/
def writeDocument (d : Disk) (path : String) (document : Json) : Disk × Except OutputError Unit :=
  if path = "" then (d, .error (.invalidPath "Path is empty"))
  else if d.isDir path then (d, .error (.invalidPath ("Path is a directory: " ++ path)))
  else
    let parent := (Path.parent path).getD ""
    let (d, made) := if parent = "" || d.exists? parent then (d, .ok ()) else d.makeDirs parent
    match made with
    | .error e =>
      (d, .error (.invalidPath ("Cannot create directory " ++ parent ++ ": " ++ e.message)))
    | .ok () =>
      match d.createFile path document.pretty.toUTF8 with
      | .error e => (d, .error (.writeFailed e))
      | .ok d => (d, .ok ())

/-- The document in a file. -/
def readDocument (d : Disk) (path : String) : Except OutputError Json :=
  match d.readPath path with
  | .error e => .error (.writeFailed e)
  | .ok none => .error .malformed
  | .ok (some contents) =>
    match Json.parseBytes contents.written with
    | none => .error .malformed
    | some document => .ok document

/-- Reads a document of some form. -/
def readAs {α : Type} (d : Disk) (path : String) (read : Json → Option α) : Except OutputError α := do
  match read (← d.readDocument path) with
  | none => .error .malformed
  | some a => return a

def writeReport (d : Disk) (path : String) (r : Report) : Disk × Except OutputError Unit :=
  d.writeDocument path (r.toJson Json.float)

def readReport (d : Disk) (path : String) : Except OutputError Report := d.readAs path Report.ofJson?

def writeDump (d : Disk) (path : String) (dump : RegionDump) : Disk × Except OutputError Unit :=
  d.writeDocument path (dump.toJson Json.float)

def readDump (d : Disk) (path : String) : Except OutputError RegionDump :=
  d.readAs path RegionDump.ofJson?

end Disk

end ProcProfile
