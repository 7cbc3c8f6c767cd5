import ProcProfile.Region

/-!
# Byte images of regions

A region in a file is a sequence of bytes: a header of 64 bytes, chunk slots of 1960 bytes and unit
slots of 64 bytes.  Words are stored with the least significant byte first.  Which slots there are is
not read from the header but given: a process keeps the capacities that the file had when it opened it.

Main definitions: `Bytes.word`, `Bytes.push`, `Header.ofBytes`, `Region.toBytes`, `Region.ofBytes`,
`Region.overwrite`, `Region.wipe`.
-/

namespace ProcProfile

namespace Layout

/-- Where a chunk slot begins. -/
def chunkOffset (_ : Layout) (i : Nat) : Nat := headerSize + i * chunkSlotSize

/-- Where a unit slot begins. -/
def unitOffset (l : Layout) (i : Nat) : Nat :=
  headerSize + l.capacity * chunkSlotSize + i * unitSlotSize

/-- The bytes of a region. -/
def length (l : Layout) : Nat := l.unitOffset l.unitCapacity

end Layout

namespace Bytes

/-! ### Words -/

/-- The byte at an offset; bytes past the end read as zero. -/
def byte (b : ByteArray) (i : Nat) : UInt8 := if h : i < b.size then b[i] else 0

/-- The word of `n` bytes at an offset. -/
def word (b : ByteArray) (i : Nat) : (n : Nat) → UInt64
  | 0 => 0
  | n + 1 => (byte b i).toUInt64 ||| (word b (i + 1) n <<< 8)

/-- Appends the `n` least significant bytes of a word. -/
def push (b : ByteArray) (w : UInt64) : (n : Nat) → ByteArray
  | 0 => b
  | n + 1 => push (b.push w.toUInt8) (w >>> 8) n

def word16 (b : ByteArray) (i : Nat) : UInt16 := (word b i 2).toUInt16

def word32 (b : ByteArray) (i : Nat) : UInt32 := (word b i 4).toUInt32

def word64 (b : ByteArray) (i : Nat) : UInt64 := word b i 8

def push16 (b : ByteArray) (w : UInt16) : ByteArray := push b w.toUInt64 2

def push32 (b : ByteArray) (w : UInt32) : ByteArray := push b w.toUInt64 4

def push64 (b : ByteArray) (w : UInt64) : ByteArray := push b w 8

/-- The `n` bytes at an offset as a list. -/
def list (b : ByteArray) (i : Nat) : (n : Nat) → List UInt8
  | 0 => []
  | n + 1 => byte b i :: list b (i + 1) n

/-- Whether the `n` bytes at an offset are zero. -/
def isZero (b : ByteArray) (i : Nat) : (n : Nat) → Bool
  | 0 => true
  | n + 1 => byte b i == 0 && isZero b (i + 1) n

/-- Appends `n` zeros. -/
def pushZeros (b : ByteArray) : (n : Nat) → ByteArray
  | 0 => b
  | n + 1 => pushZeros (b.push 0) n

/-- Fills bytes up to a size with zeros. -/
def fill (b : ByteArray) (size : Nat) : ByteArray := pushZeros b (size - b.size)

/-- The bytes `b` that stand at `start` of some image, after `patch` was written at `offset` of it. -/
def overlay (b : ByteArray) (start : Nat) (patch : ByteArray) (offset : Nat) : ByteArray :=
  let first := max start offset
  let last := min (start + b.size) (offset + patch.size)
  if first < last then patch.copySlice (first - offset) b (first - start) (last - first) else b

/-- The bytes `b` that stand at `start` of some image, after those from `first` up to `last` of it were set
to zero. -/
def wipe (b : ByteArray) (start first last : Nat) : ByteArray :=
  let first := max start first
  overlay b start (pushZeros ByteArray.empty (min (start + b.size) last - first)) first

end Bytes

open Bytes

/-! ### Header -/

namespace Header

/-- Appends a header. -/
def push (b : ByteArray) (h : Header) : ByteArray :=
  let b := push64 b h.magic
  let b := push32 (push32 b h.formatVersion) h.chunkSlotSize
  let b := push64 b h.capacity
  let b := push32 (push32 b h.unitCapacity) h.unitSlotSize
  let b := push32 (push32 b h.nextOwner) h.reserved
  push64 (push64 (push64 b h.used) h.unitsUsed) h.filler

/-- The header at the start of a file. -/
def ofBytes (b : ByteArray) : Header where
  magic := word64 b 0
  formatVersion := word32 b 8
  chunkSlotSize := word32 b 12
  capacity := word64 b 16
  unitCapacity := word32 b 24
  unitSlotSize := word32 b 28
  nextOwner := word32 b 32
  reserved := word32 b 36
  used := word64 b 40
  unitsUsed := word64 b 48
  filler := word64 b 56

/-- Replaces the header at the start of a file. -/
def overwrite (h : Header) (b : ByteArray) : ByteArray :=
  (push ByteArray.empty h).copySlice 0 b 0 headerSize

end Header

/-! ### Slots -/

/-- The bytes after the number of a chunk's key. -/
def keyFillerSize : Nat := 6

/-- The bytes of a record and of a chunk's key. -/
def recordSize : Nat := 64

def chunkKeySize : Nat := 32

/-- Appends a record.  The mark of its fingerprint is the lowest bit of a word. -/
def Record.push (b : ByteArray) (r : Record) : ByteArray :=
  let b := push32 (push32 b r.line.toUInt32) r.lineFiller
  let b := push64 b r.queryFingerprint
  let b := push64 b (if r.hasFingerprint then r.markFiller ||| 1 else r.markFiller)
  let b := push64 (push64 (push64 b r.maxTime) r.totalTime) r.rows
  push64 (push64 b r.execCount) r.errorCount

/-- The record at an offset. -/
def Record.ofBytes (b : ByteArray) (i : Nat) : Record where
  line := (word32 b i).toInt32
  queryFingerprint := word64 b (i + 8)
  hasFingerprint := word64 b (i + 16) &&& 1 == 1
  maxTime := word64 b (i + 24)
  totalTime := word64 b (i + 32)
  rows := word64 b (i + 40)
  execCount := word64 b (i + 48)
  errorCount := word64 b (i + 56)
  lineFiller := word32 b (i + 4)
  markFiller := word64 b (i + 16) &&& 0xfffffffffffffffe

/-- Appends the key of a chunk. -/
def ChunkKey.push (b : ByteArray) (key : ChunkKey) : ByteArray :=
  let b := push32 (push32 b key.identity.unitId) key.identity.ownerDb
  let b := push64 (push64 b key.identity.version) key.identity.location
  Bytes.push (push16 b key.number.toUInt16) key.filler keyFillerSize

/-- The key of a chunk at an offset. -/
def ChunkKey.ofBytes (b : ByteArray) (i : Nat) : ChunkKey where
  identity := ⟨word32 b i, word32 b (i + 4), word64 b (i + 8), word64 b (i + 16)⟩
  number := (word16 b (i + 24)).toInt16
  filler := word b (i + 26) keyFillerSize

/-- Appends the records of a page. -/
def pushRecords (b : ByteArray) (records : List Record) : ByteArray := records.foldl Record.push b

/-- The `n` records at an offset. -/
def recordsOfBytes (b : ByteArray) (i : Nat) : (n : Nat) → List Record
  | 0 => []
  | n + 1 => Record.ofBytes b i :: recordsOfBytes b (i + recordSize) n

/-- Appends a chunk slot. -/
def pushChunkSlot (b : ByteArray) (slot : Slot ChunkKey Page) : ByteArray :=
  pushRecords (slot.key.push (push32 (push32 b slot.state) slot.mutex)) slot.value.records

/-- The chunk slot at an offset. -/
def chunkSlotOfBytes (b : ByteArray) (i : Nat) : Slot ChunkKey Page where
  state := word32 b i
  mutex := word32 b (i + 4)
  key := ChunkKey.ofBytes b (i + 8)
  value := ⟨recordsOfBytes b (i + 40) recordsPerChunk⟩

/-- Appends a unit slot. -/
def pushUnitSlot (b : ByteArray) (slot : Slot UnitKey CallStats) : ByteArray :=
  let b := push32 (push32 b slot.state) slot.mutex
  let b := push32 (push32 b slot.key.unitId) slot.key.ownerDb
  let s := slot.value
  let b := push64 (push64 (push64 b s.execCount) s.errorCount) s.totalTime
  push64 (push64 (push64 b s.sumSqBits) s.minTime) s.maxTime

/-- The unit slot at an offset. -/
def unitSlotOfBytes (b : ByteArray) (i : Nat) : Slot UnitKey CallStats where
  state := word32 b i
  mutex := word32 b (i + 4)
  key := ⟨word32 b (i + 8), word32 b (i + 12)⟩
  value := ⟨word64 b (i + 16), word64 b (i + 24), word64 b (i + 32), word64 b (i + 40),
    word64 b (i + 48), word64 b (i + 56)⟩

/-! ### Regions -/

/-- The slots of a table in an image: `count` slots of `size` bytes each, one after another from `start`
on. -/
structure SlotArea where
  start : Nat
  size : Nat
  count : Nat

namespace SlotArea

/-- Where a slot begins. -/
def offset (a : SlotArea) (i : Nat) : Nat := a.start + i * a.size

/-- The slots that lie at least in part on the bytes from `first` up to `last`. -/
def touched (a : SlotArea) (first last : Nat) : List Nat :=
  let lo := (first - a.start) / a.size
  let hi := min a.count ((last - a.start + (a.size - 1)) / a.size)
  List.range' lo (hi - lo)

end SlotArea

namespace Layout

def chunkArea (l : Layout) : SlotArea := ⟨l.chunkOffset 0, chunkSlotSize, l.capacity⟩

def unitArea (l : Layout) : SlotArea := ⟨l.unitOffset 0, unitSlotSize, l.unitCapacity⟩

end Layout

namespace Table

variable {κ ν : Type}

/-- Appends the slots of a table that begin before `limit`, each where it belongs, up to the last one that
was written to. -/
def push (t : Table κ ν) (a : SlotArea) (push : ByteArray → Slot κ ν → ByteArray) (limit : Nat)
    (b : ByteArray) : ByteArray :=
  t.toList.foldl
    (fun b (i, slot) => if a.offset i < limit then push (fill b (a.offset i)) slot else b) b

/-- The table of an image. -/
def ofBytes (a : SlotArea) (read : ByteArray → Nat → Slot κ ν) (b : ByteArray) : Table κ ν :=
  (a.touched 0 b.size).foldl
    (fun t i => if isZero b (a.offset i) a.size then t else t.set i (read b (a.offset i)))
    (Table.new a.count)

/-- The table after bytes of its image were overwritten. -/
def overwrite [Inhabited κ] [Inhabited ν] (t : Table κ ν) (a : SlotArea)
    (push : ByteArray → Slot κ ν → ByteArray) (read : ByteArray → Nat → Slot κ ν)
    (offset : Nat) (patch : ByteArray) : Table κ ν :=
  (a.touched offset (offset + patch.size)).foldl
    (fun t i => t.modify i fun slot =>
      read (overlay (push ByteArray.empty slot) (a.offset i) patch offset) 0) t

/-- The table after bytes of its image were set to zero.  Slots that were never written are zero
already. -/
def wipe (t : Table κ ν) (a : SlotArea) (push : ByteArray → Slot κ ν → ByteArray)
    (read : ByteArray → Nat → Slot κ ν) (first last : Nat) : Table κ ν :=
  t.toList.foldl
    (fun t (i, slot) =>
      if a.offset i < last && first < a.offset (i + 1) then
        t.set i (read (Bytes.wipe (push ByteArray.empty slot) (a.offset i) first last) 0)
      else t) t

end Table

namespace Region

/-- The first bytes of the image of a region, `limit` at most, without zeros at their end that were never
written. -/
def toBytes (r : Region) (limit : Nat) : ByteArray :=
  let b := Header.push ByteArray.empty r.header
  let b := r.chunks.push r.layout.chunkArea pushChunkSlot limit b
  (r.units.push r.layout.unitArea pushUnitSlot limit b).extract 0 limit

/-- The region of an image with a given layout; zeros at the end of the image may be left out. -/
def ofBytes (l : Layout) (b : ByteArray) : Region where
  header := Header.ofBytes b
  chunks := Table.ofBytes l.chunkArea chunkSlotOfBytes b
  units := Table.ofBytes l.unitArea unitSlotOfBytes b

/-- The region after bytes of its image were overwritten. -/
def overwrite (r : Region) (offset : Nat) (patch : ByteArray) : Region where
  header := Header.ofBytes (overlay (Header.push ByteArray.empty r.header) 0 patch offset)
  chunks := r.chunks.overwrite r.layout.chunkArea pushChunkSlot chunkSlotOfBytes offset patch
  units := r.units.overwrite r.layout.unitArea pushUnitSlot unitSlotOfBytes offset patch

/-- The region after the bytes of its image from `first` up to `last` were set to zero. -/
def wipe (r : Region) (first last : Nat) : Region where
  header := Header.ofBytes (Bytes.wipe (Header.push ByteArray.empty r.header) 0 first last)
  chunks := r.chunks.wipe r.layout.chunkArea pushChunkSlot chunkSlotOfBytes first last
  units := r.units.wipe r.layout.unitArea pushUnitSlot unitSlotOfBytes first last

end Region

end ProcProfile
