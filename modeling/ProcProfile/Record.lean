import ProcProfile.Fault
import ProcProfile.Procedure

/-!
# Statement records and chunks

A profile is a list of records, one for each statement in natural order.  It is stored in *chunks* of
30 records, numbered from 1; the records of the last chunk that no statement uses hold the reserved
line -1.

Main definitions: `Record`, `Record.merge`, `ChunkKey`, `Chunk`, `chunksNeeded`, `pagesOf`.
-/

namespace ProcProfile

/-- How many records a chunk holds. -/
def recordsPerChunk : Nat := 30

/-- The counters of one statement of one incarnation. -/
structure Record where
  /-- The statement's line, or -1 for a record that no statement uses. -/
  line : Int32
  /-- Meaningful only if `hasFingerprint`. -/
  queryFingerprint : UInt64
  hasFingerprint : Bool
  maxTime : Counter
  totalTime : Counter
  rows : Counter
  execCount : Counter
  errorCount : Counter
  /-- What fills the word of the line in an image, and what fills that of the mark of the fingerprint.  Zero
  in every record that an operation makes; two records that differ in it are not equal. -/
  lineFiller : UInt32 := 0
  markFiller : UInt64 := 0
  deriving DecidableEq, Repr, Inhabited

namespace Record

/-- The reserved line of unused records. -/
def unusedLine : Int32 := -1

/-- A record without counts for a statement on `line`. -/
def ofLine (line : Int32) : Record where
  line := line
  queryFingerprint := 0
  hasFingerprint := false
  maxTime := 0
  totalTime := 0
  rows := 0
  execCount := 0
  errorCount := 0

/-- The record that no statement uses. -/
def unused : Record := ofLine unusedLine

def withFingerprint (r : Record) (fingerprint : Option UInt64) : Record :=
  { r with queryFingerprint := fingerprint.getD 0, hasFingerprint := fingerprint.isSome }

def fingerprint (r : Record) : Option UInt64 :=
  if r.hasFingerprint then some r.queryFingerprint else none

/-- Adds the counts of another call of the same statement: counters add up, the longest time stays, and
the first fingerprint seen is kept.  The fillers stay. -/
def merge (r other : Record) : Except Fault Record := do
  let totalTime ← Counter.add r.totalTime other.totalTime
  let rows ← Counter.add r.rows other.rows
  let execCount ← Counter.add r.execCount other.execCount
  let errorCount ← Counter.add r.errorCount other.errorCount
  let merged := { r with
    maxTime := max r.maxTime other.maxTime
    totalTime := totalTime
    rows := rows
    execCount := execCount
    errorCount := errorCount }
  return if !r.hasFingerprint && other.hasFingerprint then
    { merged with queryFingerprint := other.queryFingerprint, hasFingerprint := true }
  else merged

end Record

/-- One chunk of one incarnation. -/
structure ChunkKey where
  identity : Identity
  number : ChunkNumber
  /-- What fills the key up to its size in an image.  Zero in every key that an operation makes; a stored
  key that differs in it is another key. -/
  filler : UInt64
  deriving DecidableEq, Repr, Inhabited

namespace ChunkKey

/-- The key of a chunk. -/
def new (id : Identity) (number : ChunkNumber) : ChunkKey := ⟨id, number, 0⟩

/-- Chunk 1, which every stored profile has. -/
def first (id : Identity) : ChunkKey := new id 1

/-- The chunk after this one. -/
def next (key : ChunkKey) : Except Fault ChunkKey := new key.identity <$> key.number.next

end ChunkKey

/-- A copy of one stored chunk. -/
structure Chunk where
  key : ChunkKey
  records : List Record
  deriving DecidableEq, Repr

/-- The records of a chunk up to the first unused one. -/
def Chunk.usedRecords (c : Chunk) : List Record :=
  c.records.takeWhile fun r => r.line != Record.unusedLine

/-- How many chunks hold `n` records; a profile without records still has one chunk. -/
def chunksNeeded (n : Nat) : Nat :=
  max ((n + recordsPerChunk - 1) / recordsPerChunk) 1

/-- Cuts records into `n` pages; the last ones may be short or empty. -/
def cutPages : (n : Nat) → List Record → List (List Record)
  | 0, _ => []
  | n + 1, records =>
    records.take recordsPerChunk :: cutPages n (records.drop recordsPerChunk)

/-- The records of a profile, cut into the pages that its chunks hold. -/
def pagesOf (records : List Record) : List (List Record) :=
  cutPages (chunksNeeded records.length) records

end ProcProfile
