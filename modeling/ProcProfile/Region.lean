import ProcProfile.Error
import ProcProfile.Record
import ProcProfile.Table
import ProcProfile.Totals

/-!
# Regions

A region holds the profiles and the call statistics of many procedures in two slot tables of fixed
size, behind a header that counts the used slots of each.  A region may live in a file that several
processes map; the header then also says which layout it has, and hands out owner ids.

Main definitions: `Header`, `Page`, `Region`, `Region.insert`, `Region.remove`, `Region.clear` and the
same for units, `RegionInfo`.
-/

namespace ProcProfile

/-- Spreads the bits of a word over all its places. -/
def mix (x : UInt64) : UInt64 :=
  let x := x + 0x9E3779B97F4A7C15
  let x := (x ^^^ (x >>> 30)) * 0xBF58476D1CE4E5B9
  let x := (x ^^^ (x >>> 27)) * 0x94D049BB133111EB
  x ^^^ (x >>> 31)

/-- A unit id and a database as one word. -/
def pairWord (unitId ownerDb : UInt32) : UInt64 := (unitId.toUInt64 <<< 32) ||| ownerDb.toUInt64

instance : Slotted UnitKey where
  home key := mix (pairWord key.unitId key.ownerDb)

instance : Slotted ChunkKey where
  home key :=
    let h := mix (pairWord key.identity.unitId key.identity.ownerDb)
    let h := mix (h ^^^ key.identity.version)
    let h := mix (h ^^^ key.identity.location)
    mix (h ^^^ key.number.toUInt16.toUInt64)

/-! ### Layout -/

/-- The first word of every region. -/
def regionMagic : UInt64 := 0x0100464F52504C50

/-- The layout that this library writes. -/
def formatVersion : UInt32 := 2

/-- The bytes of a header, of a chunk slot and of a unit slot. -/
def headerSize : Nat := 64

def chunkSlotSize : Nat := 1960

def unitSlotSize : Nat := 64

/-- The bytes of a region, if they can be counted in a word. -/
def regionLength (capacity unitCapacity : UInt64) : Except Fault Counter := do
  let chunks ← Counter.mul capacity (UInt64.ofNat chunkSlotSize)
  let front ← Counter.add (UInt64.ofNat headerSize) chunks
  let units ← Counter.mul unitCapacity (UInt64.ofNat unitSlotSize)
  Counter.add front units

/-- The number of chunk slots and of unit slots. -/
structure Layout where
  capacity : Nat
  unitCapacity : Nat
  deriving DecidableEq, Repr

/-- The head of a region. -/
structure Header where
  magic : UInt64
  formatVersion : UInt32
  chunkSlotSize : UInt32
  capacity : UInt64
  unitCapacity : UInt32
  unitSlotSize : UInt32
  /-- The owner id handed out last. -/
  nextOwner : UInt32
  reserved : UInt32
  /-- How many chunk slots are used. -/
  used : UInt64
  /-- How many unit slots are used. -/
  unitsUsed : UInt64
  /-- The bytes that fill the header up to its size. -/
  filler : UInt64
  deriving DecidableEq, Repr, Inhabited

/-- The owner id of regions that only their own process sees. -/
def localOwner : UInt32 := 1

/-- The header of a region without entries. -/
def Header.new (capacity unitCapacity : UInt64) : Header where
  magic := regionMagic
  formatVersion := ProcProfile.formatVersion
  chunkSlotSize := UInt32.ofNat ProcProfile.chunkSlotSize
  capacity := capacity
  unitCapacity := unitCapacity.toUInt32
  unitSlotSize := UInt32.ofNat ProcProfile.unitSlotSize
  nextOwner := localOwner
  reserved := 0
  used := 0
  unitsUsed := 0
  filler := 0

/-- The records of a chunk slot. -/
structure Page where
  records : List Record
  deriving DecidableEq, Repr

namespace Page

/-- A page as it was before its slot was ever used: all bytes zero. -/
def blank : Page := ⟨List.replicate recordsPerChunk (Record.ofLine 0)⟩

/-- A page whose records no statement uses. -/
def unused : Page := ⟨List.replicate recordsPerChunk Record.unused⟩

end Page

instance : Inhabited Page := ⟨Page.blank⟩

/-- A region: its header and the two tables. -/
structure Region where
  header : Header
  chunks : Table ChunkKey Page
  units : Table UnitKey CallStats

/-- What is told about a region. -/
structure RegionInfo where
  shared : Bool
  formatVersion : UInt32
  capacity : Nat
  usedChunks : Nat
  freeChunks : Nat
  unitCapacity : Nat
  usedUnits : Nat
  deriving DecidableEq, Repr

/-- Capacity and use of a region, as its header tells them. -/
def Header.info (h : Header) (l : Layout) (shared : Bool) : RegionInfo where
  shared := shared
  formatVersion := h.formatVersion
  capacity := l.capacity
  usedChunks := h.used.toNat
  freeChunks := l.capacity - h.used.toNat
  unitCapacity := l.unitCapacity
  usedUnits := h.unitsUsed.toNat

namespace Region

/-- A region without entries. -/
def create (capacity unitCapacity : UInt64) : Region where
  header := Header.new capacity unitCapacity
  chunks := Table.new capacity.toNat
  units := Table.new unitCapacity.toNat

/-- The number of chunk slots. -/
def capacity (r : Region) : Nat := r.chunks.size

/-- The number of unit slots. -/
def unitCapacity (r : Region) : Nat := r.units.size

/-- Both numbers of slots. -/
def layout (r : Region) : Layout := ⟨r.capacity, r.unitCapacity⟩

/-- Capacity and use of a region. -/
def info (r : Region) (shared : Bool) : RegionInfo := r.header.info r.layout shared

/-! ### Chunk slots -/

/-- The slot of a chunk. -/
def find? (r : Region) (key : ChunkKey) : Option Nat := r.chunks.find? key

/-- Adds a chunk of unused records and gives its slot.  An error leaves the region as it was. -/
def insert (r : Region) (key : ChunkKey) : Region × Except StoreError Nat :=
  match r.chunks.lookup key with
  | .found _ => (r, .error (.duplicateChunk key.identity.unitId key.number))
  | .vacant none => (r, .error (.exhausted r.capacity))
  | .vacant (some i) =>
    ({ r with
      header := { r.header with used := r.header.used + 1 }
      chunks := r.chunks.place i key Page.unused }, .ok i)

/-- Removes the chunk in a slot. -/
def remove (r : Region) (i : Nat) : Region :=
  if r.chunks.isUsed i then
    { r with
      header := { r.header with used := r.header.used - 1 }
      chunks := r.chunks.remove i }
  else r

/-- Removes every chunk. -/
def clear (r : Region) : Region :=
  { r with header := { r.header with used := 0 }, chunks := r.chunks.clear }

/-- The records in a slot. -/
def page (r : Region) (i : Nat) : List Record := (r.chunks.get i).value.records

/-- Replaces the records in a slot. -/
def writePage (r : Region) (i : Nat) (records : List Record) : Region :=
  { r with chunks := r.chunks.write i ⟨records⟩ }

/-! ### Unit slots -/

/-- The slot of a procedure's call statistics. -/
def findUnit? (r : Region) (key : UnitKey) : Option Nat := r.units.find? key

/-- The slot of a procedure's call statistics, added without calls if there was none.  An error leaves
the region as it was. -/
def insertUnit (r : Region) (key : UnitKey) : Region × Except StoreError Nat :=
  match r.units.lookup key with
  | .found i => (r, .ok i)
  | .vacant none => (r, .error (.unitTableFull r.unitCapacity))
  | .vacant (some i) =>
    ({ r with
      header := { r.header with unitsUsed := r.header.unitsUsed + 1 }
      units := r.units.place i key CallStats.zero }, .ok i)

/-- Removes the call statistics in a slot. -/
def removeUnit (r : Region) (i : Nat) : Region :=
  if r.units.isUsed i then
    { r with
      header := { r.header with unitsUsed := r.header.unitsUsed - 1 }
      units := r.units.remove i }
  else r

/-- Removes all call statistics. -/
def clearUnits (r : Region) : Region :=
  { r with header := { r.header with unitsUsed := 0 }, units := r.units.clear }

/-- The call statistics in a slot. -/
def stats (r : Region) (i : Nat) : CallStats := (r.units.get i).value

/-- Replaces the call statistics in a slot. -/
def writeStats (r : Region) (i : Nat) (stats : CallStats) : Region :=
  { r with units := r.units.write i stats }

end Region

end ProcProfile
