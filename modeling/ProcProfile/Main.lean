import Std.Time.Format
import ProcProfile.Command.Run

/-!
# The command line program

The files that a command line speaks of are read, the command is carried out on them, and what it
changed is written back.  All decisions are made by `Host.run`.
-/

namespace ProcProfile

namespace Main

/-- The places that a path leads through: their names, and their paths. -/
def stations (path : String) : List (Names × String) :=
  let start := if Path.isAbsolute path then (["/"], "/") else ([], "")
  let step := fun (found, names, text) part =>
    let names := Target.names ⟨names, part, false⟩
    let text := text ++ part
    (found ++ [(names, text)], names, text ++ "/")
  ((Path.parts path).foldl step (([] : List (Names × String)), start)).1

/-- The paths that a command line speaks of. -/
def pathsOf : CommandLine → List String
  | .init region _ _ => [region]
  | .info region => [region]
  | .reset region _ => [region]
  | .dump region output => [region, output]
  | _ => []

/-- The operating system's number for a directory in place of a file. -/
def isADirectoryCode : UInt32 := 21

/-- Takes what stands at a place into the model of the files. -/
def load (disk : Disk) (place : Names × String) : IO Disk := do
  if (disk.lookup place.1).isSome then return disk
  match ← (IO.FS.readBinFile place.2).toBaseIO with
  | .ok bytes =>
    let id := disk.contents.size
    return { disk with contents := disk.contents.push (.ofBytes bytes) }.bind place.1 (.file id)
  | .error (.inappropriateType _ code _) =>
    return if code == isADirectoryCode then disk.bind place.1 .dir else disk
  | .error _ => return disk

/-- Writes a place back if it is not what it was. -/
def save (before after : Disk) (place : Names × String) : IO Unit := do
  match before.lookup place.1, after.lookup place.1 with
  | none, some .dir => IO.FS.createDirAll place.2
  | some (.file old), some (.file new) =>
    let bytes := (after.read new).toBytes
    if (before.read old).toBytes != bytes then IO.FS.writeBinFile place.2 bytes
  | _, some (.file new) => IO.FS.writeBinFile place.2 (after.read new).toBytes
  | _, _ => return

/-- Runs a command line and gives its exit code. -/
def run (args : List String) : IO UInt32 := do
  let environment ← IO.getEnv "PLPROFILER_REGION"
  let places := ((CommandLine.parse args environment).map pathsOf).getD [] |>.flatMap stations
  let disk ← places.foldlM load Disk.empty
  let time := Std.Time.DateTime.toISO8601String
    (Std.Time.DateTime.ofTimestamp (← Std.Time.Timestamp.now) .UTC)
  let (host, exit) := Host.run { Host.empty with disk := disk } args environment time
  places.forM (save disk host.disk)
  IO.print exit.printed
  IO.eprint exit.complaint
  return UInt32.ofNat exit.code

end Main

end ProcProfile

def main (args : List String) : IO UInt32 := ProcProfile.Main.run args
