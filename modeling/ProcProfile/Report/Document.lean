import ProcProfile.Json
import ProcProfile.Session

/-!
# Documents

Reports and dumps as JSON values.  Fields have a fixed order; what is absent is null, except that a
missing fingerprint, call statistics and lines are left out.  How a double is written is a parameter:
files hold its shortest decimal.

Main definitions: `RegionDump`, `Report.toJson`, `RegionDump.toJson`.
-/

namespace ProcProfile

/-- Everything that a region holds. -/
structure RegionDump where
  version : String
  generatedAt : String
  info : RegionInfo
  chunks : List Chunk
  units : List UnitSummary

/-- A whole number of a fixed width. -/
def Json.word (n : UInt64) : Json := .nat n.toNat

def StatementRow.toJson (r : StatementRow) : Json :=
  .object ([
    ("natural_id", .nat r.naturalId),
    ("parent_natural_id", .option .nat r.parentId),
    ("block_label", .option .string r.blockLabel),
    ("block_num", .nat r.blockNum),
    ("line_number", .int r.line.toInt),
    ("statement_kind", .string r.kind),
    ("exec_count", .word r.execCount),
    ("exec_count_err", .word r.errorCount),
    ("total_time_us", .word r.totalTime),
    ("max_time_us", .word r.maxTime),
    ("rows", .word r.rows)] ++
    r.fingerprint.toList.map fun fp => ("query_fingerprint", .word fp))

def LineRow.toJson (r : LineRow) : Json :=
  .object [
    ("line_number", .int r.line.toInt),
    ("stmt_line", .option (fun l => .int l.toInt) r.statementLine),
    ("cmds_on_row", .nat r.statements),
    ("exec_count", .word r.execCount),
    ("total_time_us", .word r.totalTime),
    ("max_times_us", .array (r.maxTimes.map .word)),
    ("processed_rows", .array (r.processedRows.map .word)),
    ("source", .string r.source)]

/-- The fields of coverage counts. -/
def CoverageCounts.fields (c : CoverageCounts) : List (String × Json) := [
  ("statements", .nat c.statements),
  ("executed_statements", .nat c.executedStatements),
  ("branches", .nat c.branches),
  ("executed_branches", .nat c.executedBranches),
  ("anomalies", .nat c.anomalies)]

def RegionInfo.toJson (i : RegionInfo) : Json :=
  .object [
    ("shared", .bool i.shared),
    ("format_version", .nat i.formatVersion.toNat),
    ("capacity", .nat i.capacity),
    ("used_chunks", .nat i.usedChunks),
    ("free_chunks", .nat i.freeChunks),
    ("unit_capacity", .nat i.unitCapacity),
    ("used_units", .nat i.usedUnits)]

def Record.toJson (r : Record) : Json :=
  .object [
    ("line_number", .int r.line.toInt),
    ("query_fingerprint", .word r.queryFingerprint),
    ("has_fingerprint", .bool r.hasFingerprint),
    ("max_time_us", .word r.maxTime),
    ("total_time_us", .word r.totalTime),
    ("rows_processed", .word r.rows),
    ("exec_count", .word r.execCount),
    ("exec_count_err", .word r.errorCount)]

def Identity.toJson (id : Identity) : Json :=
  .object [
    ("unit_id", .nat id.unitId.toNat),
    ("owner_db_id", .nat id.ownerDb.toNat),
    ("version_stamp", .word id.version),
    ("physical_location", .word id.location)]

def Chunk.toJson (c : Chunk) : Json :=
  .object [
    ("key", .object [
      ("identity", c.key.identity.toJson),
      ("chunk_number", .int c.key.number.toInt)]),
    ("records", .array (c.records.map Record.toJson))]

section Doubles

variable (float : Float → Json)

def CoverageReport.toJson (c : CoverageReport) : Json :=
  .object ([("unit_id", .nat c.unitId.toNat), ("name", .string c.name)] ++ c.counts.fields ++
    [("statement_ratio", float c.statementRatio), ("branch_ratio", float c.branchRatio)])

def UnitSummary.toJson (s : UnitSummary) : Json :=
  .object [
    ("unit_id", .nat s.unitId.toNat),
    ("owner_db_id", .nat s.ownerDb.toNat),
    ("exec_count", .word s.execCount),
    ("exec_count_err", .word s.errorCount),
    ("total_time_us", .word s.totalTime),
    ("mean_time_us", float s.meanTime),
    ("stddev_time_us", float s.stddevTime),
    ("min_time_us", .word s.minTime),
    ("max_time_us", .word s.maxTime)]

def Report.toJson (r : Report) : Json :=
  .object ([
    ("version", .string r.version),
    ("generated_at", .string r.generatedAt),
    ("unit_id", .nat r.unitId.toNat),
    ("owner_db_id", .nat r.ownerDb.toNat),
    ("name", .string r.name),
    ("statements", .array (r.statements.map StatementRow.toJson))] ++
    (if r.lines.isEmpty then [] else [("lines", .array (r.lines.map LineRow.toJson))]) ++
    [("coverage", r.coverage.toJson float)] ++
    r.summary.toList.map fun s => ("summary", s.toJson float))

def RegionDump.toJson (d : RegionDump) : Json :=
  .object [
    ("version", .string d.version),
    ("generated_at", .string d.generatedAt),
    ("info", d.info.toJson),
    ("chunks", .array (d.chunks.map Chunk.toJson)),
    ("units", .array (d.units.map (UnitSummary.toJson float)))]

end Doubles

end ProcProfile
