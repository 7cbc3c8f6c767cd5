import ProcProfile.Host
import ProcProfile.Region.Profiles
import ProcProfile.Region.Statistics
import ProcProfile.Report.File

/-!
# Administration of region files

A region file can be made, looked at, cleared and written out.  Each command opens the region, does its
work, says what it did and gives the region up again.

Main definitions: `CommandError`, `Outcome`, `Host.initRegion`, `Host.showInfo`, `Host.resetRegion`,
`Host.dumpRegion`.
-/

namespace ProcProfile

/-- Why a command failed. -/
inductive CommandError where
  | noCapacity
  /-- The region could not be used, while doing what the context says. -/
  | store (context : String) (cause : StoreError)
  /-- The output could not be written. -/
  | output (context : String) (cause : OutputError)
  deriving DecidableEq, Repr

/-- The texts of a store error and of what caused it. -/
def StoreError.chain (e : StoreError) : List String :=
  match e with
  | .io cause => [e.message, cause.message]
  | _ => [e.message]

/-- The texts of an output error and of what caused it. -/
def OutputError.chain (e : OutputError) : List String :=
  match e with
  | .writeFailed cause => [e.message, cause.message]
  | _ => [e.message]

/-- The texts of a failure, from what was to be done to what stood in the way. -/
def CommandError.chain : CommandError → List String
  | .noCapacity => ["capacity and units must be greater than 0"]
  | .store context cause => context :: cause.chain
  | .output context cause => context :: cause.chain

/-- What a command printed, and how it ended. -/
structure Outcome (α : Type) where
  printed : String
  result : Except (Stop CommandError) α

/-- A failure says nothing on standard output. -/
def Outcome.failed {α : Type} (e : Stop CommandError) : Outcome α := ⟨"", .error e⟩

/-- A store's reason to stop as a command's. -/
def Stop.inContext (context : String) : Stop StoreError → Stop CommandError
  | .error e => .error (.store context e)
  | .fault f => .fault f

/-- The lines that describe a region. -/
def RegionInfo.describe (i : RegionInfo) (path : String) : String :=
  "Region: " ++ path ++ "\n" ++
  "  Format version: " ++ toString i.formatVersion.toNat ++ "\n" ++
  "  Capacity:       " ++ toString i.capacity ++ " chunks\n" ++
  "  Used:           " ++ toString i.usedChunks ++ " chunks\n" ++
  "  Free:           " ++ toString i.freeChunks ++ " chunks\n" ++
  "  Procedures:     " ++ toString i.usedUnits ++ " of " ++ toString i.unitCapacity ++ "\n"

namespace Host

/-- Makes a region file, or checks one that is there. -/
def initRegion (h : Host) (path : String) (capacity units : UInt64) : Host × Outcome RegionInfo :=
  if capacity = 0 ∨ units = 0 then (h, .failed (.error .noCapacity))
  else
    match h.openShared path capacity units with
    | (h, .error e) => (h, .failed (e.inContext ("Failed to open region " ++ path)))
    | (h, .ok store) =>
      let info := h.info store
      (h.release store, ⟨info.describe path, .ok info⟩)

/-- Opens a region file for a command. -/
def attachFor {α : Type} (h : Host) (path : String) (use : Host → Store → Host × Outcome α) :
    Host × Outcome α :=
  match h.attach path with
  | (h, .error e) => (h, .failed (e.inContext ("Failed to attach to region " ++ path)))
  | (h, .ok store) =>
    let (h, outcome) := use h store
    (h.release store, outcome)

/-- Tells capacity and use of a region. -/
def showInfo (h : Host) (path : String) : Host × Outcome RegionInfo :=
  h.attachFor path fun h store =>
    let info := h.info store
    (h, ⟨info.describe path, .ok info⟩)

/-- Removes the chunks and the call statistics of one procedure, or of all. -/
def resetRegion (h : Host) (path : String) (unit : Option UnitKey) : Host × Outcome Nat :=
  let scope :=
    match unit with
    | some key => ResetScope.unit key
    | none => .all
  h.attachFor path fun h store =>
    let (h, removed) := h.perform store fun _ r => do
      let (r, chunks) ← r.reset scope
      let (r, units) := r.resetStats unit
      return .pure r (chunks, units)
    match removed with
    | .error f => (h, .failed (.fault f))
    | .ok (chunks, units) =>
      (h, ⟨"✓ Removed " ++ toString chunks ++ " chunks, " ++ toString units ++ " call statistics\n",
        .ok chunks⟩)

/-- Writes everything that a region holds to a file. -/
def dumpRegion (h : Host) (path output generatedAt : String) : Host × Outcome RegionDump :=
  h.attachFor path fun h store =>
    let info := h.info store
    let (h, contents) := h.perform store fun o r => do
      let found ← r.summaries o
      return found.map fun units => (r.dump, units)
    match contents with
    | .error f => (h, .failed (.fault f))
    | .ok (chunks, units) =>
      let dump : RegionDump := ⟨reportVersion, generatedAt, info, chunks, units⟩
      match h.disk.writeDump output dump with
      | (disk, .error e) =>
        ({ h with disk := disk }, .failed (.error (.output "Failed to write region dump" e)))
      | (disk, .ok ()) =>
        ({ h with disk := disk }, ⟨"✓ Dump written to: " ++ output ++ "\n", .ok dump⟩)

end Host

/-! ### Texts -/

/-- The version of the program. -/
def programVersion : String := "0.1.0"

/-- What is said about the form of reports. -/
def schemaText (details : Bool) : String :=
  "plprofiler Report Schema\n" ++
  "Current Version: " ++ reportVersion ++ "\n" ++
  "Region Format:   " ++ toString formatVersion.toNat ++ "\n" ++
  "\n" ++
  if details then
    "Report Structure:\n" ++
    "  version: string           - Schema version (e.g., '1.0.0')\n" ++
    "  generated_at: string      - ISO 8601 timestamp\n" ++
    "  unit_id: number           - Procedure object id\n" ++
    "  name: string              - Procedure name\n" ++
    "  statements: array         - One row per visible statement\n" ++
    "    natural_id: number      - Source-order statement id\n" ++
    "    parent_natural_id: number? - Enclosing statement\n" ++
    "    block_label: string?    - Parent list ('then body', 'elsif 1', ...)\n" ++
    "    block_num: number       - Position in that list\n" ++
    "    exec_count: number      - Executions\n" ++
    "    exec_count_err: number  - Executions that ended with an error\n" ++
    "    total_time_us: number   - Self time in microseconds\n" ++
    "    max_time_us: number     - Longest single execution\n" ++
    "    rows: number            - Rows processed\n" ++
    "  lines: array?             - Per source line totals\n" ++
    "  coverage: object          - Statement and branch coverage\n" ++
    "  summary: object?          - Call count, mean, stddev, min, max\n" ++
    "\n" ++
    "Region chunks hold " ++ toString recordsPerChunk ++ " statement records each.\n"
  else "Use --show for detailed schema information\n"

/-- What is said about the version. -/
def versionText : String :=
  "plprofiler v" ++ programVersion ++ "\n" ++
  "Report Schema: v" ++ reportVersion ++ "\n" ++
  "Region Format: v" ++ toString formatVersion.toNat ++ "\n" ++
  "\n" ++
  "Per-statement execution profiler and coverage engine for procedural code.\n"

end ProcProfile
