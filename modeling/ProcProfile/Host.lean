import ProcProfile.Disk
import ProcProfile.Region.Lock

/-!
# Stores

A store is a handle on a region: on one in the memory of its own process, or on one in a file that
other processes use as well.  The host keeps the regions themselves, so handles on one file see one
region.

Whoever uses a region in a file holds an *owner token*: a locked file beside the region, named for the
owner's id.  An id whose token is not locked belongs to nobody alive.

Main definitions: `Host`, `Store`, `Host.openShared`, `Host.attach`, `Host.openStore`, `Host.perform`,
`Host.release`.
-/

namespace ProcProfile

/-- A handle on a region in a file. -/
structure Attachment where
  file : FileId
  path : String
  layout : Layout
  /-- The owner id of this handle. -/
  owner : UInt32
  /-- The locked file that shows this owner alive. -/
  token : FileId
  deriving DecidableEq, Repr

/-- A handle on a region. -/
inductive Store where
  | memory (id : Nat)
  | file (attachment : Attachment)
  deriving DecidableEq, Repr

/-- The files and the regions in memory. -/
structure Host where
  disk : Disk
  memory : Array Region

/-- Which region to open. -/
structure StoreConfig where
  /-- The file of the region; none for memory. -/
  path : Option String
  capacity : UInt64
  unitCapacity : UInt64

/-- The usual capacities. -/
def defaultCapacity : UInt64 := 15000

def defaultUnitCapacity : UInt64 := 10000

def Store.isShared : Store → Bool
  | .memory _ => false
  | .file _ => true

/-! ### Owner tokens -/

/-- The path of an owner's token. -/
def tokenPath (region : String) (owner : UInt32) : String :=
  region ++ ".owner-" ++ toString owner.toNat

namespace Disk

/-- Whether an owner is alive: its token is locked.  A token that cannot be looked at counts as locked. -/
def ownerAlive (d : Disk) (region : String) (owner : UInt32) : Bool :=
  match d.openFile (tokenPath region owner) with
  | .ok id => d.isLocked id
  | .error .notFound => false
  | .error _ => true

/-- Removes the tokens of owners that were found dead. -/
def removeTokens (d : Disk) (region : String) (owners : List UInt32) : Disk :=
  owners.foldl (fun d owner => d.unlink (tokenPath region owner)) d

/-- Takes the next owner id of a region that nobody alive has.  Ids count up and start again after the
last; 0 and the id of local owners are skipped. -/
def acquireToken (region : String) (file : FileId) :
    (fuel : Nat) → (d : Disk) → Disk × Except (Stop StoreError) (UInt32 × FileId)
  | 0, d => (d, .error (.fault .waiting))
  | fuel + 1, d =>
    let header := (d.read file).header
    let id := header.nextOwner + 1
    let d := d.modify file fun c => c.setHeader { header with nextOwner := id }
    if id ≤ localOwner then acquireToken region file fuel d
    else
      match d.openOrCreate (tokenPath region id) with
      | .error e => (d, .error (.error (.io e)))
      | .ok (d, token) =>
        match d.tryLock token with
        | none => acquireToken region file fuel d
        | some d => (d, .ok (id, token))

/-- Gives an owner's token back. -/
def releaseToken (d : Disk) (region : String) (owner : UInt32) (token : FileId) : Disk :=
  (d.unlock token).unlink (tokenPath region owner)

end Disk

/-! ### Opening -/

/-- The greatest length that a file or a mapping can be asked to have. -/
def maxLength : Nat := 0x7fffffffffffffff

/-- The greatest length that a file can have. -/
def maxFileLength : Nat := 0xffffffff000

/-- The layout of a region file, if its header describes the whole of it. -/
def Layout.ofFile (path : String) (c : Contents) : Except (Stop StoreError) Layout :=
  if c.size < headerSize then
    .error (.error (.formatMismatch (path ++ " is too short to be a chunk region")))
  else
    let h := c.header
    if h.magic ≠ regionMagic then .error (.error (.formatMismatch "bad magic"))
    else if h.formatVersion ≠ formatVersion then
      .error (.error (.formatMismatch ("format version " ++ toString h.formatVersion.toNat ++
        ", expected " ++ toString formatVersion.toNat)))
    else if h.chunkSlotSize.toNat ≠ chunkSlotSize ∨ h.unitSlotSize.toNat ≠ unitSlotSize then
      .error (.error (.formatMismatch ("slot sizes " ++ toString h.chunkSlotSize.toNat ++ "/" ++
        toString h.unitSlotSize.toNat ++ ", expected " ++ toString chunkSlotSize ++ "/" ++
        toString unitSlotSize)))
    else
      let mismatch := StoreError.formatMismatch ("file length " ++ toString c.size ++
        " does not match capacity " ++ toString h.capacity.toNat ++ "/" ++
        toString h.unitCapacity.toNat)
      if h.capacity = 0 ∨ h.unitCapacity = 0 then .error (.error mismatch)
      else do
        let length ← Stop.ofFault (regionLength h.capacity h.unitCapacity.toUInt64)
        if c.size ≠ length.toNat then .error (.error mismatch)
        else return ⟨h.capacity.toNat, h.unitCapacity.toNat⟩

namespace Host

/-- A host without files and regions. -/
def empty : Host := ⟨Disk.empty, #[]⟩

/-- The region of a new file. -/
def newInFile (capacity unitCapacity : UInt64) : Except (Stop StoreError) Region := do
  let length ← Stop.ofFault (regionLength capacity unitCapacity)
  if maxLength < length.toNat then .error (.error (.io .lengthTooLarge))
  else if maxFileLength < length.toNat then .error (.error (.io .fileTooLarge))
  else return Region.create capacity unitCapacity

/-- The region of a new piece of memory. -/
def newInMemory (capacity unitCapacity : UInt64) : Except (Stop StoreError) Region := do
  let length ← Stop.ofFault (regionLength capacity unitCapacity)
  if maxLength < length.toNat then .error (.error (.io .mappingTooLarge))
  else if maxMemory < length.toNat then .error (.error (.io .noMemory))
  else return Region.create capacity unitCapacity

/-- A handle on the region in a file that is open. -/
def attachFile (h : Host) (path : String) (file : FileId) (layout : Layout) :
    Host × Except (Stop StoreError) Store :=
  match Disk.acquireToken path file UInt32.size h.disk with
  | (disk, .error e) => ({ h with disk := disk }, .error e)
  | (disk, .ok (owner, token)) =>
    ({ h with disk := disk }, .ok (.file ⟨file, path, layout, owner, token⟩))

/-- Opens the region in a file; a file without contents becomes a new region.  A region that is there
keeps the capacities that it was made with. -/
def openShared (h : Host) (path : String) (capacity unitCapacity : UInt64) :
    Host × Except (Stop StoreError) Store :=
  if capacity = 0 ∨ unitCapacity = 0 then (h, .error (.error .regionTooSmall))
  else
    match h.disk.openOrCreate path with
    | .error e => (h, .error (.error (.io e)))
    | .ok (disk, file) =>
      let h := { h with disk := disk }
      if (disk.read file).size = 0 then
        match newInFile capacity unitCapacity with
        | .error e => (h, .error e)
        | .ok region =>
          { h with disk := disk.write file (.ofRegion region) }.attachFile path file region.layout
      else
        match Layout.ofFile path (disk.read file) with
        | .error e => (h, .error e)
        | .ok layout => h.attachFile path file layout

/-- Opens a region that is already in a file. -/
def attach (h : Host) (path : String) : Host × Except (Stop StoreError) Store :=
  match h.disk.openFile path with
  | .error e => (h, .error (.error (.io e)))
  | .ok file =>
    match Layout.ofFile path (h.disk.read file) with
    | .error e => (h, .error e)
    | .ok layout => h.attachFile path file layout

/-- Opens a new region in memory. -/
def openMemory (h : Host) (capacity unitCapacity : UInt64) : Host × Except (Stop StoreError) Store :=
  if capacity = 0 ∨ unitCapacity = 0 then (h, .error (.error .regionTooSmall))
  else
    match newInMemory capacity unitCapacity with
    | .error e => (h, .error e)
    | .ok region =>
      ({ h with memory := h.memory.push region }, .ok (.memory h.memory.size))

/-- Opens the wanted region; one in a file that cannot be opened is replaced by one in memory. -/
def openStore (h : Host) (config : StoreConfig) : Host × Except (Stop StoreError) Store :=
  match config.path with
  | none => h.openMemory config.capacity config.unitCapacity
  | some path =>
    match h.openShared path config.capacity config.unitCapacity with
    | (h, .error (.error _)) => h.openMemory config.capacity config.unitCapacity
    | answer => answer

/-- Gives a store up. -/
def release (h : Host) : Store → Host
  | .memory id => { h with memory := h.memory.setIfInBounds id (Region.create 0 0) }
  | .file a => { h with disk := h.disk.releaseToken a.path a.owner a.token }

/-! ### Using a store -/

/-- The owner that a handle on a file acts as. -/
def ownerOf (h : Host) (a : Attachment) : Owner :=
  ⟨a.owner, fun id => id == a.owner || h.disk.ownerAlive a.path id⟩

/-- The region behind a store. -/
def region (h : Host) : Store → Region
  | .memory id => h.memory.getD id (Region.create 0 0)
  | .file a => (h.disk.read a.file).mapped a.layout

/-- Runs an operation on the region behind a store.  After a fault the region is taken to be as it was: a
process that stops within an operation may have written a part of what the operation writes, and that part is not kept
here. -/
def perform {α : Type} (h : Host) (s : Store) (op : Owner → Region → Except Fault (Access α)) :
    Host × Except Fault α :=
  match s with
  | .memory id =>
    match op Owner.local (h.region s) with
    | .error f => (h, .error f)
    | .ok a => ({ h with memory := h.memory.setIfInBounds id a.region }, .ok a.answer)
  | .file att =>
    match op (h.ownerOf att) (h.region s) with
    | .error f => (h, .error f)
    | .ok a =>
      let disk := h.disk.modify att.file fun c => c.writeMapped a.region
      ({ h with disk := disk.removeTokens att.path a.retired }, .ok a.answer)

/-- Capacity and use of a store. -/
def info (h : Host) (s : Store) : RegionInfo :=
  match s with
  | .memory _ => (h.region s).info false
  | .file a => (h.disk.read a.file).header.info a.layout true

end Host

end ProcProfile
