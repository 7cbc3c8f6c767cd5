import ProcProfile.Region.Lock

/-!
# Stored profiles

The profile of an incarnation is a list of records cut into chunks 1, 2, …, K.  Folding a call into it
creates the chunks the first time and adds the counts of each record later; a call whose statements
are not those of the stored profile is refused as a whole.

Main definitions: `Region.fold`, `Region.readRecords`, `Region.findChunk`, `Region.insertChunk`,
`Region.reset`, `Region.dump`.
-/

namespace ProcProfile

/-- What a reset removes. -/
inductive ResetScope where
  /-- Every chunk. -/
  | all
  /-- Every chunk of one incarnation. -/
  | incarnation (id : Identity)
  /-- Every chunk of every incarnation of one procedure. -/
  | unit (key : UnitKey)
  deriving DecidableEq, Repr

/-- Dumps are ordered by database, unit, version, location and chunk number. -/
def ChunkKey.before (a b : ChunkKey) : Bool :=
  if a.identity.ownerDb ≠ b.identity.ownerDb then a.identity.ownerDb < b.identity.ownerDb
  else if a.identity.unitId ≠ b.identity.unitId then a.identity.unitId < b.identity.unitId
  else if a.identity.version ≠ b.identity.version then a.identity.version < b.identity.version
  else if a.identity.location ≠ b.identity.location then a.identity.location < b.identity.location
  else a.number ≤ b.number

/-- One more than the greatest chunk number, which bounds every walk along a profile's chunks. -/
def chunkNumberBound : Nat := 0x8000

namespace Region

/-! ### Single chunks -/

/-- A copy of a chunk, if its incarnation has a chunk 1. -/
def findChunk (r : Region) (o : Owner) (id : Identity) (number : ChunkNumber) :
    Except Fault (Access (Option Chunk)) :=
  let key := ChunkKey.new id number
  match r.find? key with
  | none => .ok (.pure r none)
  | some i =>
    match if number = 1 then some i else r.find? (.first id) with
    | none => .ok (.pure r none)
    | some first => r.withChunk o first fun r => .ok (r, some ⟨key, r.page i⟩)

/-- Adds a chunk of unused records and gives a copy of it. -/
def insertChunk (r : Region) (id : Identity) (number : ChunkNumber) : Region × Except StoreError Chunk :=
  let key := ChunkKey.new id number
  match r.insert key with
  | (r, .error e) => (r, .error e)
  | (r, .ok i) => (r, .ok ⟨key, r.page i⟩)

/-! ### Folding a call -/

/-- A page filled up with unused records. -/
def fillPage (records : List Record) : List Record :=
  records ++ List.replicate (recordsPerChunk - records.length) Record.unused

/-- Creates a chunk for each page, from chunk `key` on.  If one does not fit, those in the slots `created`
before it go again. -/
def createChunks : (pages : List (List Record)) → (key : ChunkKey) → (created : List Nat) →
    (r : Region) → Except Fault (Region × Except StoreError Unit)
  | [], _, _, r => .ok (r, .ok ())
  | page :: pages, key, created, r =>
    match r.insert key with
    | (r, .error e) => .ok (created.foldl Region.remove r, .error e)
    | (r, .ok i) => do
      let r := r.writePage i (fillPage page)
      let next ← key.next
      createChunks pages next (i :: created) r

/-- Adds the counts of a call to those of a page.  Both have to run over the same lines, and where the
call ends the page has to end as well. -/
def mergePage : (stored call : List Record) → Except (Stop StoreError) (List Record)
  | [], _ => .ok []
  | extra :: rest, [] =>
    if extra.line ≠ Record.unusedLine then
      .error (.error (.recordMismatch Record.unusedLine extra.line))
    else .ok (extra :: rest)
  | stored :: rest, call :: calls =>
    if stored.line ≠ call.line then .error (.error (.recordMismatch call.line stored.line))
    else do
      let merged ← Stop.ofFault (stored.merge call)
      let rest ← mergePage rest calls
      return merged :: rest

/-- The merged pages, with their slots: `page` goes with chunk `key` in slot `i`, and `pages` with the
chunks after it.  The stored profile has to have these chunks and no further one. -/
def mergedPages (r : Region) : (page : List Record) → (pages : List (List Record)) →
    (key : ChunkKey) → (i : Nat) → Except (Stop StoreError) (List (Nat × List Record))
  | page, [], key, i => do
    let merged ← mergePage (r.page i) page
    let next ← Stop.ofFault key.next
    if (r.find? next).isSome then
      .error (.error (.unexpectedChunk next.identity.unitId next.number))
    else return [(i, merged)]
  | page, page' :: pages, key, i => do
    let merged ← mergePage (r.page i) page
    let next ← Stop.ofFault key.next
    match r.find? next with
    | none => .error (.error (.missingChunk next.identity.unitId next.number))
    | some j => do
      let rest ← mergedPages r page' pages next j
      return (i, merged) :: rest

/-- Writes pages into their slots. -/
def writePages (r : Region) (pages : List (Nat × List Record)) : Region :=
  pages.foldl (fun r (i, page) => r.writePage i page) r

/-- Adds the counts of a call to a stored profile whose chunk 1 is in slot `i`.  Nothing is written
unless every page agrees with the call. -/
def mergeInto (records : List Record) (first : ChunkKey) (i : Nat) (r : Region) :
    Except Fault (Region × Except StoreError Unit) :=
  match pagesOf records with
  | [] => .ok (r, .ok ())
  | page :: pages =>
    match r.mergedPages page pages first i with
    | .ok merged => .ok (r.writePages merged, .ok ())
    | .error (.error e) => .ok (r, .error e)
    | .error (.fault f) => .error f

/-- Folds the records of one call into the profile of an incarnation. -/
def fold (r : Region) (o : Owner) (id : Identity) (records : List Record) :
    Except Fault (Access (Except StoreError Unit)) :=
  match r.find? (.first id) with
  | some i => r.withChunk o i (mergeInto records (.first id) i)
  | none => do
    let (r, answer) ← createChunks (pagesOf records) (.first id) [] r
    return .pure r answer

/-! ### Reading -/

/-- The records of chunk `key` in slot `i` and of all chunks that follow it. -/
def chainRecords (r : Region) : (fuel : Nat) → (key : ChunkKey) → (i : Nat) →
    Except Fault (List Record)
  | 0, _, _ => .ok []
  | fuel + 1, key, i => do
    let next ← key.next
    match r.find? next with
    | none => return r.page i
    | some j => do
      let rest ← chainRecords r fuel next j
      return r.page i ++ rest

/-- The records of an incarnation, unused ones at the end included; none if it was never folded. -/
def readRecords (r : Region) (o : Owner) (id : Identity) :
    Except Fault (Access (Option (List Record))) :=
  match r.find? (.first id) with
  | none => .ok (.pure r none)
  | some i => r.withChunk o i fun r => do
    let records ← r.chainRecords chunkNumberBound (.first id) i
    return (r, some records)

/-- Every stored chunk, in the order of `ChunkKey.before`. -/
def dump (r : Region) : List Chunk :=
  (r.chunks.entries.map fun (key, page) => (⟨key, page.records⟩ : Chunk)).mergeSort
    fun a b => a.key.before b.key

/-! ### Removing -/

/-- Removes chunk `key` and those after it, as far as they follow each other; counts on from `removed`. -/
def removeChain : (fuel : Nat) → (key : ChunkKey) → (removed : Nat) → (r : Region) →
    Except Fault (Region × Nat)
  | 0, _, removed, r => .ok (r, removed)
  | fuel + 1, key, removed, r =>
    match r.find? key with
    | none => .ok (r, removed)
    | some i => do
      let next ← key.next
      removeChain fuel next (removed + 1) (r.remove i)

/-- Removes chunks; also says how many. -/
def reset (r : Region) : ResetScope → Except Fault (Region × Nat)
  | .all => .ok (r.clear, r.header.used.toNat)
  | .incarnation id => removeChain chunkNumberBound (.first id) 0 r
  | .unit unit =>
    let slots := r.chunks.indices fun key => key.identity.unitKey == unit
    .ok (slots.foldl Region.remove r, slots.length)

end Region

end ProcProfile
