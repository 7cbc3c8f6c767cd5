import ProcProfile.Contents
import ProcProfile.Path

/-!
# Files

The part of a file system that regions and reports need: directories, files whose contents outlive
their names for those who have them open, and exclusive locks on files.

Main definitions: `Disk`, `Disk.resolve`, `Disk.openFile`, `Disk.createFile`, `Disk.makeDirs`,
`Disk.unlink`, `Disk.tryLock`.
-/

namespace ProcProfile

/-- Where a path leads, as names from the working directory on.  A first name `/` is the root; names `..`
at the front lead to directories above the working directory. -/
abbrev Names := List String

/-- A file, by the number under which its contents are kept. -/
abbrev FileId := Nat

/-- What a name stands for. -/
inductive Node where
  | dir
  | file (id : FileId)
  deriving DecidableEq, Repr

/-- The files and directories that are known. -/
structure Disk where
  entries : List (Names × Node)
  contents : Array Contents
  /-- The files on which someone holds an exclusive lock. -/
  locked : List FileId

/-- The longest name and the longest path, in bytes. -/
def maxNameBytes : Nat := 255

def maxPathBytes : Nat := 4095

namespace Names

/-- Whether names lead to the root or upwards only: to a directory that is always there. -/
def isTop (names : Names) : Bool := names == ["/"] || names.all (· == "..")

/-- The directory above. -/
def up (names : Names) : Names :=
  if names == ["/"] then names else if names.isTop then ".." :: names else names.dropLast

end Names

/-- The last part of a path, and the directory in which it is looked up. -/
structure Target where
  dir : Names
  part : String
  /-- The path ends in a slash. -/
  isDirectory : Bool

namespace Target

/-- Whether the part is the name of an entry, and not a way to a directory. -/
def isName (t : Target) : Bool := t.part != "" && t.part != "." && t.part != ".."

/-- Where the path leads. -/
def names (t : Target) : Names :=
  if t.isName then t.dir ++ [t.part] else if t.part = ".." then t.dir.up else t.dir

end Target

namespace Disk

/-- A working directory without entries. -/
def empty : Disk := ⟨[], #[], []⟩

/-- What a list of names leads to. -/
def lookup (d : Disk) (names : Names) : Option Node :=
  if names.isTop then some .dir else d.entries.lookup names

/-- Names a node, in place of what had the name before. -/
def bind (d : Disk) (names : Names) (node : Node) : Disk :=
  { d with entries := (names, node) :: d.entries.filter fun e => e.1 != names }

/-- Removes a name. -/
def unbind (d : Disk) (names : Names) : Disk :=
  { d with entries := d.entries.filter fun e => e.1 != names }

/-! ### Following paths -/

/-- What the part of a path leads to. -/
def find (d : Disk) (t : Target) : Except DiskError (Option Node) :=
  if maxNameBytes < t.part.utf8ByteSize then .error .nameTooLong else .ok (d.lookup t.names)

/-- Follows the parts of a path up to the last one; each before it has to lead to a directory. -/
def follow (d : Disk) (isDirectory : Bool) (dir : Names) : List String → Except DiskError Target
  | [] => .ok ⟨dir, "", isDirectory⟩
  | [part] => .ok ⟨dir, part, isDirectory⟩
  | part :: rest => do
    let step : Target := ⟨dir, part, true⟩
    match ← d.find step with
    | none => .error .notFound
    | some (.file _) => .error .notADirectory
    | some .dir => follow d isDirectory step.names rest

/-- The last part of a path. -/
def target (d : Disk) (path : String) : Except DiskError Target :=
  if path.toList.contains '\x00' then .error .unexpectedNul
  else if path = "" then .error .notFound
  else if maxPathBytes < path.utf8ByteSize then .error .nameTooLong
  else d.follow (Path.namesDirectory path) (if Path.isAbsolute path then ["/"] else [])
    (Path.parts path)

/-- The names and the node of a path that leads to something. -/
def resolve (d : Disk) (path : String) : Except DiskError (Names × Node) := do
  let t ← d.target path
  match ← d.find t with
  | none => .error .notFound
  | some (.file id) => if t.isDirectory then .error .notADirectory else return (t.names, .file id)
  | some .dir => return (t.names, .dir)

def exists? (d : Disk) (path : String) : Bool := (d.resolve path).isOk

def isDir (d : Disk) (path : String) : Bool :=
  match d.resolve path with
  | .ok (_, .dir) => true
  | _ => false

/-! ### Contents -/

/-- The contents of a file. -/
def read (d : Disk) (id : FileId) : Contents := d.contents.getD id Contents.empty

/-- Replaces the contents of a file. -/
def write (d : Disk) (id : FileId) (contents : Contents) : Disk :=
  { d with contents := d.contents.setIfInBounds id contents }

/-- Changes the contents of a file. -/
def modify (d : Disk) (id : FileId) (f : Contents → Contents) : Disk := d.write id (f (d.read id))

/-- An existing file, for writing. -/
def openFile (d : Disk) (path : String) : Except DiskError FileId := do
  match ← d.resolve path with
  | (_, .dir) => .error .isADirectory
  | (_, .file id) => return id

/-- An existing file for writing, or a new one without contents. -/
def openOrCreate (d : Disk) (path : String) : Except DiskError (Disk × FileId) := do
  let t ← d.target path
  if t.isDirectory || !t.isName then .error .isADirectory
  else
    match ← d.find t with
    | none =>
      let id := d.contents.size
      let d := { d with contents := d.contents.push Contents.empty }
      return (d.bind t.names (.file id), id)
    | some .dir => .error .isADirectory
    | some (.file id) => return (d, id)

/-- A file with these contents, new or in place of the old contents. -/
def createFile (d : Disk) (path : String) (bytes : ByteArray) : Except DiskError Disk := do
  let (d, id) ← d.openOrCreate path
  return d.write id (Contents.ofBytes bytes)

/-- The contents behind a path.  A directory can be opened and has no contents to read. -/
def readPath (d : Disk) (path : String) : Except DiskError (Option Contents) := do
  match ← d.resolve path with
  | (_, .dir) => return none
  | (_, .file id) => return some (d.read id)

/-- Removes the name of a file; whoever has the file open keeps it. -/
def unlink (d : Disk) (path : String) : Disk :=
  match d.resolve path with
  | .ok (names, .file _) => d.unbind names
  | _ => d

/-! ### Directories -/

/-- Makes a directory; the one above it has to exist. -/
def makeDir (d : Disk) (path : String) : Except DiskError Disk := do
  let t ← d.target path
  if !t.isName then .error .alreadyExists
  else
    match ← d.find t with
    | none => return d.bind t.names .dir
    | some _ => .error .alreadyExists

/-- Makes the first of some paths that can be made, and lists those before it, the last one in front.  It
ends as well where a directory is there. -/
def makeFirst (d : Disk) (missing : List String) :
    List String → Disk × Except DiskError (List String)
  | [] => (d, .ok missing)
  | path :: rest =>
    if path = "" || (Path.parent path).isNone then (d, .ok missing)
    else
      match d.makeDir path with
      | .ok d => (d, .ok missing)
      | .error .notFound => makeFirst d (path :: missing) rest
      | .error e => (d, if e = .alreadyExists && d.isDir path then .ok missing else .error e)

/-- Makes directories one after another; what is a directory already is left as it is. -/
def makeEach (d : Disk) : List String → Disk × Except DiskError Unit
  | [] => (d, .ok ())
  | path :: rest =>
    match d.makeDir path with
    | .ok d => makeEach d rest
    | .error e =>
      if e = .alreadyExists && d.isDir path then makeEach d rest else (d, .error e)

/-- Makes a directory and those that lead to it.  What was made before an error stays. -/
def makeDirs (d : Disk) (path : String) : Disk × Except DiskError Unit :=
  match d.makeFirst [] (Path.ancestors path) with
  | (d, .error e) => (d, .error e)
  | (d, .ok missing) => d.makeEach missing

/-- The entries of the working directory, in the order of their names. -/
def list (d : Disk) : List (String × Node) :=
  let top := d.entries.filterMap fun (names, node) =>
    match names with
    | [name] => some (name, node)
    | _ => none
  top.mergeSort fun a b => decide (a.1 ≤ b.1)

/-! ### Locks -/

def isLocked (d : Disk) (id : FileId) : Bool := d.locked.contains id

/-- Takes the lock on a file, unless someone holds it. -/
def tryLock (d : Disk) (id : FileId) : Option Disk :=
  if d.isLocked id then none else some { d with locked := id :: d.locked }

def unlock (d : Disk) (id : FileId) : Disk := { d with locked := d.locked.filter (· != id) }

end Disk

end ProcProfile
