import ProcProfile.Report.Document

/-!
# Reading documents

A document is read field by field.  Fields may come in any order, unknown ones are passed over, and a
known one may come only once.  The fields of a structure may also be given as a list, in their usual
order.  A whole number is taken for a double, a double never for a whole number.

The coverage of a report keeps its counts among its own fields, so every further field of it is read
as a value before it is known to be of no use: it has to have a meaning, its numbers have to be whole
numbers or doubles, and its nesting is bounded.

Main definitions: `Fields`, `Report.ofJson?`, `RegionDump.ofJson?`.
-/

namespace ProcProfile

/-! ### Plain values -/

namespace Json

def toText? : Json → Option String
  | .string s => some s
  | _ => none

def toBool? : Json → Option Bool
  | .bool b => some b
  | _ => none

/-- A whole number of a range. -/
def toInt? (low high : Int) : Json → Option Int
  | .number n => n.toInt?.bind fun i => if low ≤ i ∧ i ≤ high then some i else none
  | _ => none

/-- A whole number of a word type with so many values. -/
def toNat? (size : Nat) (j : Json) : Option Nat := (j.toInt? 0 (size - 1)).map Int.toNat

def toSize? : Json → Option Nat := toNat? UInt64.size

def toWord? (j : Json) : Option UInt64 := (j.toNat? UInt64.size).map UInt64.ofNat

def toId? (j : Json) : Option UInt32 := (j.toNat? UInt32.size).map UInt32.ofNat

def toLine? (j : Json) : Option Int32 :=
  (j.toInt? Int32.minValue.toInt Int32.maxValue.toInt).map Int32.ofInt

def toChunkNumber? (j : Json) : Option ChunkNumber :=
  (j.toInt? Int16.minValue.toInt Int16.maxValue.toInt).map Int16.ofInt

def toFloat? : Json → Option Float
  | .number n => n.toFloat?
  | _ => none

/-- A list of values. -/
def toList? {α : Type} (read : Json → Option α) : Json → Option (List α)
  | .array items => items.mapM read
  | _ => none

/-- A value or null. -/
def toNullable? {α : Type} (read : Json → Option α) : Json → Option (Option α)
  | .null => some none
  | j => (read j).map some

mutual

/-- How deep arrays and objects are nested. -/
def depth : Json → Nat
  | .array items => itemsDepth items + 1
  | .object fields => fieldsDepth fields + 1
  | _ => 0

def itemsDepth : List Json → Nat
  | [] => 0
  | item :: rest => max (depth item) (itemsDepth rest)

def fieldsDepth : List (String × Json) → Nat
  | [] => 0
  | (_, value) :: rest => max (depth value) (fieldsDepth rest)

end

mutual

/-- Whether every number is a whole number or a double and nothing is ill-formed. -/
def isMeaningful : Json → Bool
  | .number n => n.toInt?.isSome || n.toFloat?.isSome
  | .illFormed => false
  | .array items => itemsMeaningful items
  | .object fields => fieldsMeaningful fields
  | _ => true

def itemsMeaningful : List Json → Bool
  | [] => true
  | item :: rest => isMeaningful item && itemsMeaningful rest

def fieldsMeaningful : List (String × Json) → Bool
  | [] => true
  | (_, value) :: rest => isMeaningful value && fieldsMeaningful rest

end

end Json

/-! ### Fields of a structure -/

/-- The fields of a structure that are given. -/
structure Fields where
  values : List (String × Json)
  /-- Given as a list, in their usual order. -/
  positional : Bool

namespace Fields

/-- Whether a list of names has none twice. -/
def distinct : List String → Bool
  | [] => true
  | name :: rest => !rest.contains name && distinct rest

/-- The given fields among those with some names. -/
def ofJson? (names : List String) : Json → Option Fields
  | .object fields =>
    let known := fields.filter fun f => names.contains f.1
    if distinct (known.map Prod.fst) then some ⟨known, false⟩ else none
  | .array items => if items.length ≤ names.length then some ⟨names.zip items, true⟩ else none
  | _ => none

variable {α : Type}

/-- A field that has to be there. -/
def required (f : Fields) (name : String) (read : Json → Option α) : Option α :=
  (f.values.lookup name).bind read

/-- A field that may be null, or missing among named fields. -/
def nullable (f : Fields) (name : String) (read : Json → Option α) : Option (Option α) :=
  match f.values.lookup name with
  | none => if f.positional then none else some none
  | some j => j.toNullable? read

/-- A field that may be missing. -/
def withDefault (f : Fields) (name : String) (read : Json → Option α) (value : α) : Option α :=
  match f.values.lookup name with
  | none => some value
  | some j => read j

end Fields

/-! ### Structures -/

def StatementRow.ofJson? (j : Json) : Option StatementRow := do
  let f ← Fields.ofJson? ["natural_id", "parent_natural_id", "block_label", "block_num",
    "line_number", "statement_kind", "exec_count", "exec_count_err", "total_time_us", "max_time_us",
    "rows", "query_fingerprint"] j
  return {
    naturalId := ← f.required "natural_id" Json.toSize?
    parentId := ← f.nullable "parent_natural_id" Json.toSize?
    blockLabel := ← f.nullable "block_label" Json.toText?
    blockNum := ← f.required "block_num" Json.toSize?
    line := ← f.required "line_number" Json.toLine?
    kind := ← f.required "statement_kind" Json.toText?
    execCount := ← f.required "exec_count" Json.toWord?
    errorCount := ← f.required "exec_count_err" Json.toWord?
    totalTime := ← f.required "total_time_us" Json.toWord?
    maxTime := ← f.required "max_time_us" Json.toWord?
    rows := ← f.required "rows" Json.toWord?
    fingerprint := ← f.withDefault "query_fingerprint" (Json.toNullable? Json.toWord?) none }

def LineRow.ofJson? (j : Json) : Option LineRow := do
  let f ← Fields.ofJson? ["line_number", "stmt_line", "cmds_on_row", "exec_count", "total_time_us",
    "max_times_us", "processed_rows", "source"] j
  return {
    line := ← f.required "line_number" Json.toLine?
    statementLine := ← f.nullable "stmt_line" Json.toLine?
    statements := ← f.required "cmds_on_row" Json.toSize?
    execCount := ← f.required "exec_count" Json.toWord?
    totalTime := ← f.required "total_time_us" Json.toWord?
    maxTimes := ← f.required "max_times_us" (Json.toList? Json.toWord?)
    processedRows := ← f.required "processed_rows" (Json.toList? Json.toWord?)
    source := ← f.required "source" Json.toText? }

/-- The names of the counts and of the other fields of a coverage. -/
def CoverageCounts.names : List String :=
  ["statements", "executed_statements", "branches", "executed_branches", "anomalies"]

def CoverageReport.ownNames : List String := ["unit_id", "name", "statement_ratio", "branch_ratio"]

/-- How deep a field of a coverage that is not its own may be nested. -/
def CoverageReport.maxDepth : Nat := 125

/-- Whether a field of a coverage can be read as a value. -/
def CoverageReport.admits (field : String × Json) : Bool :=
  ownNames.contains field.1 || (field.2.isMeaningful && decide (field.2.depth ≤ maxDepth))

def CoverageReport.ofJson? : Json → Option CoverageReport
  | .object fields => do
    let f ← Fields.ofJson? (ownNames ++ CoverageCounts.names) (.object fields)
    if fields.all admits then
      return {
        unitId := ← f.required "unit_id" Json.toId?
        name := ← f.required "name" Json.toText?
        counts := {
          statements := ← f.required "statements" Json.toSize?
          executedStatements := ← f.required "executed_statements" Json.toSize?
          branches := ← f.required "branches" Json.toSize?
          executedBranches := ← f.required "executed_branches" Json.toSize?
          anomalies := ← f.required "anomalies" Json.toSize? }
        statementRatio := ← f.required "statement_ratio" Json.toFloat?
        branchRatio := ← f.required "branch_ratio" Json.toFloat? }
    else none
  | _ => none

def UnitSummary.ofJson? (j : Json) : Option UnitSummary := do
  let f ← Fields.ofJson? ["unit_id", "owner_db_id", "exec_count", "exec_count_err", "total_time_us",
    "mean_time_us", "stddev_time_us", "min_time_us", "max_time_us"] j
  return {
    unitId := ← f.required "unit_id" Json.toId?
    ownerDb := ← f.required "owner_db_id" Json.toId?
    execCount := ← f.required "exec_count" Json.toWord?
    errorCount := ← f.required "exec_count_err" Json.toWord?
    totalTime := ← f.required "total_time_us" Json.toWord?
    meanTime := ← f.required "mean_time_us" Json.toFloat?
    stddevTime := ← f.required "stddev_time_us" Json.toFloat?
    minTime := ← f.required "min_time_us" Json.toWord?
    maxTime := ← f.required "max_time_us" Json.toWord? }

def Report.ofJson? (j : Json) : Option Report := do
  let f ← Fields.ofJson? ["version", "generated_at", "unit_id", "owner_db_id", "name", "statements",
    "lines", "coverage", "summary"] j
  return {
    version := ← f.required "version" Json.toText?
    generatedAt := ← f.required "generated_at" Json.toText?
    unitId := ← f.required "unit_id" Json.toId?
    ownerDb := ← f.required "owner_db_id" Json.toId?
    name := ← f.required "name" Json.toText?
    statements := ← f.required "statements" (Json.toList? StatementRow.ofJson?)
    lines := ← f.withDefault "lines" (Json.toList? LineRow.ofJson?) []
    coverage := ← f.required "coverage" CoverageReport.ofJson?
    summary := ← f.withDefault "summary" (Json.toNullable? UnitSummary.ofJson?) none }

def RegionInfo.ofJson? (j : Json) : Option RegionInfo := do
  let f ← Fields.ofJson? ["shared", "format_version", "capacity", "used_chunks", "free_chunks",
    "unit_capacity", "used_units"] j
  return {
    shared := ← f.required "shared" Json.toBool?
    formatVersion := ← f.required "format_version" Json.toId?
    capacity := ← f.required "capacity" Json.toSize?
    usedChunks := ← f.required "used_chunks" Json.toSize?
    freeChunks := ← f.required "free_chunks" Json.toSize?
    unitCapacity := ← f.required "unit_capacity" Json.toSize?
    usedUnits := ← f.required "used_units" Json.toSize? }

def Record.ofJson? (j : Json) : Option Record := do
  let f ← Fields.ofJson? ["line_number", "query_fingerprint", "has_fingerprint", "max_time_us",
    "total_time_us", "rows_processed", "exec_count", "exec_count_err"] j
  return {
    line := ← f.required "line_number" Json.toLine?
    queryFingerprint := ← f.required "query_fingerprint" Json.toWord?
    hasFingerprint := ← f.required "has_fingerprint" Json.toBool?
    maxTime := ← f.required "max_time_us" Json.toWord?
    totalTime := ← f.required "total_time_us" Json.toWord?
    rows := ← f.required "rows_processed" Json.toWord?
    execCount := ← f.required "exec_count" Json.toWord?
    errorCount := ← f.required "exec_count_err" Json.toWord? }

def Identity.ofJson? (j : Json) : Option Identity := do
  let f ← Fields.ofJson? ["unit_id", "owner_db_id", "version_stamp", "physical_location"] j
  return {
    unitId := ← f.required "unit_id" Json.toId?
    ownerDb := ← f.required "owner_db_id" Json.toId?
    version := ← f.required "version_stamp" Json.toWord?
    location := ← f.required "physical_location" Json.toWord? }

def ChunkKey.ofJson? (j : Json) : Option ChunkKey := do
  let f ← Fields.ofJson? ["identity", "chunk_number"] j
  return ChunkKey.new (← f.required "identity" Identity.ofJson?)
    (← f.required "chunk_number" Json.toChunkNumber?)

def Chunk.ofJson? (j : Json) : Option Chunk := do
  let f ← Fields.ofJson? ["key", "records"] j
  return {
    key := ← f.required "key" ChunkKey.ofJson?
    records := ← f.required "records" (Json.toList? Record.ofJson?) }

def RegionDump.ofJson? (j : Json) : Option RegionDump := do
  let f ← Fields.ofJson? ["version", "generated_at", "info", "chunks", "units"] j
  return {
    version := ← f.required "version" Json.toText?
    generatedAt := ← f.required "generated_at" Json.toText?
    info := ← f.required "info" RegionInfo.ofJson?
    chunks := ← f.required "chunks" (Json.toList? Chunk.ofJson?)
    units := ← f.withDefault "units" (Json.toList? UnitSummary.ofJson?) [] }

end ProcProfile
