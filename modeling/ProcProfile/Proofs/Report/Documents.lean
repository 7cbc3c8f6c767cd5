import Mathlib.Tactic
import ProcProfile.Proofs.Json.Values
import ProcProfile.Report.Reader

/-!
# Documents and what they are read as

Each part of a report or a dump is read back from the value that it is written as.  Its numbers have to be of the
types that the reader expects, its doubles have to come back from their own text, and what fills a record or a key up
to its size is not written and has to be zero.

* `toNat?_nat`, `toInt?_int`, `toList?_map`, `toNullable?_option`: plain values;
* `ReadsBack`, `toFloat?_float`: doubles that come back from their own text;
* `Fields.ofJson?_object_bind`, `required_cons`, `nullable_cons`, `withDefault_cons`: the fields of a structure;
* `Report.Recoverable`, `Report.ofJson?_toJson`: reports, with their rows, coverage and call statistics;
* `RegionDump.Recoverable`, `RegionDump.ofJson?_toJson`: dumps, with their chunks.
-/

namespace ProcProfile

/-! ### Plain values -/

namespace JsonNumber

theorem digitsValue_toDigits (n : Nat) : digitsValue (Nat.toDigits 10 n) = n :=
  Nat.ofDigitChars_toDigits (by decide) (by decide)

theorem toInt?_ofNat {n : Nat} (h : n < UInt64.size) : (ofNat n).toInt? = some (n : Int) := by
  simp [toInt?, ofNat, isWhole, digitsValue_toDigits, h]

theorem toInt?_ofInt {n : Int} (hlow : -0x8000000000000000 ≤ n) (hhigh : n < UInt64.size) :
    (ofInt n).toInt? = some n := by
  cases n with
  | ofNat n => exact toInt?_ofNat (by simpa using hhigh)
  | negSucc n =>
    have hn : n + 1 ≤ 0x8000000000000000 := by omega
    simp [toInt?, ofInt, ofNat, isWhole, digitsValue_toDigits, hn, Int.negSucc_eq]

end JsonNumber

namespace Json

variable {α : Type}

theorem toInt?_int {low high n : Int} (hlow : low ≤ n) (hhigh : n ≤ high) (hmin : -0x8000000000000000 ≤ low)
    (hmax : high < UInt64.size) : (Json.int n).toInt? low high = some n := by
  rw [int, toInt?, JsonNumber.toInt?_ofInt (by omega) (by omega)]
  simp [hlow, hhigh]

theorem toNat?_nat {n size : Nat} (h : n < size) (hsize : size ≤ UInt64.size) : (Json.nat n).toNat? size = some n := by
  have hread : (Json.nat n).toInt? 0 (size - 1) = some (n : Int) :=
    toInt?_int (n := (n : Int)) (by omega) (by omega) (by omega) (by omega)
  rw [toNat?, hread]
  rfl

theorem toSize?_nat {n : Nat} (h : n < UInt64.size) : (Json.nat n).toSize? = some n := toNat?_nat h le_rfl

theorem toWord?_word (n : UInt64) : (Json.word n).toWord? = some n := by
  rw [word, toWord?, toNat?_nat n.toNat_lt le_rfl, Option.map_some, UInt64.ofNat_toNat]

theorem toId?_nat (n : UInt32) : (Json.nat n.toNat).toId? = some n := by
  rw [toId?, toNat?_nat n.toNat_lt (by decide), Option.map_some, UInt32.ofNat_toNat]

theorem toLine?_int (n : Int32) : (Json.int n.toInt).toLine? = some n := by
  rw [toLine?, toInt?_int n.minValue_le_toInt n.toInt_le (by decide) (by decide), Option.map_some, Int32.ofInt_toInt]

theorem toChunkNumber?_int (n : ChunkNumber) : (Json.int n.toInt).toChunkNumber? = some n := by
  rw [toChunkNumber?, toInt?_int n.minValue_le_toInt n.toInt_le (by decide) (by decide), Option.map_some,
    Int16.ofInt_toInt]

/-- A double is read back from the text that it is written as. -/
def ReadsBack (x : Float) : Prop := (parse (float x).pretty).bind toFloat? = some x

instance (x : Float) : Decidable (ReadsBack x) := inferInstanceAs (Decidable (_ = some x))

theorem toFloat?_float {x : Float} (h : ReadsBack x) : (float x).toFloat? = some x := by
  rw [ReadsBack, parse_pretty (written_float x)] at h
  exact h

theorem toList?_map {f : α → Json} {read : Json → Option α} {items : List α}
    (h : ∀ a ∈ items, read (f a) = some a) : toList? read (.array (items.map f)) = some items := by
  rw [toList?]
  induction items with
  | nil => rfl
  | cons a items ih =>
    rw [List.map_cons, List.mapM_cons, h a List.mem_cons_self, ih fun b hb => h b (List.mem_cons_of_mem _ hb)]
    rfl

theorem toNullable?_some {read : Json → Option α} (hnull : read .null = none) {j : Json} {a : α}
    (h : read j = some a) : toNullable? read j = some (some a) := by
  cases j with
  | null =>
    rw [hnull] at h
    cases h
  | _ =>
    rw [toNullable?, h]
    · rfl
    · rintro ⟨⟩

theorem toNullable?_option {f : α → Json} {read : Json → Option α} (hnull : read .null = none) {o : Option α}
    (h : ∀ a ∈ o, read (f a) = some a) : toNullable? read (.option f o) = some o := by
  cases o with
  | none => rfl
  | some a => exact toNullable?_some hnull (h a rfl)

end Json

/-! ### Fields -/

namespace Fields

variable {α : Type} {names : List String} {fields : List (String × Json)}

theorem distinct_iff : distinct names = true ↔ names.Nodup := by
  induction names with
  | nil => simp [distinct]
  | cons name names ih => simp [distinct, ih]

/-- Known fields, none of them twice. -/
theorem ofJson?_object (h : ∀ f ∈ fields, f.1 ∈ names) (hnodup : (fields.map Prod.fst).Nodup) :
    Fields.ofJson? names (.object fields) = some ⟨fields, false⟩ := by
  have hknown : fields.filter (fun f => names.contains f.1) = fields := by
    rw [List.filter_eq_self]
    intro f hf
    simpa using h f hf
  simp only [ofJson?, hknown, distinct_iff.2 hnodup]
  rfl

theorem ofJson?_object_bind {k : Fields → Option α} (h : ∀ f ∈ fields, f.1 ∈ names)
    (hnodup : (fields.map Prod.fst).Nodup) : (Fields.ofJson? names (.object fields) >>= k) = k ⟨fields, false⟩ := by
  rw [ofJson?_object h hnodup]
  rfl

section Lookup

variable (key : String) (value : Json) (rest : List (String × Json)) (name : String) (read : Json → Option α)

theorem lookup_cons : ((key, value) :: rest).lookup name = if name = key then some value else rest.lookup name := by
  rw [List.lookup_cons]
  by_cases h : name = key
  · simp [h]
  · rw [if_neg h, beq_false_of_ne h]

theorem required_cons : required ⟨(key, value) :: rest, false⟩ name read =
    if name = key then read value else required ⟨rest, false⟩ name read := by
  rw [required, lookup_cons]
  by_cases h : name = key
  · rw [if_pos h, if_pos h]
    rfl
  · rw [if_neg h, if_neg h]
    rfl

theorem nullable_cons : nullable ⟨(key, value) :: rest, false⟩ name read =
    if name = key then value.toNullable? read else nullable ⟨rest, false⟩ name read := by
  rw [nullable, lookup_cons]
  by_cases h : name = key
  · rw [if_pos h, if_pos h]
  · rw [if_neg h, if_neg h]
    rfl

theorem withDefault_cons (default : α) : withDefault ⟨(key, value) :: rest, false⟩ name read default =
    if name = key then read value else withDefault ⟨rest, false⟩ name read default := by
  rw [withDefault, lookup_cons]
  by_cases h : name = key
  · rw [if_pos h, if_pos h]
  · rw [if_neg h, if_neg h]
    rfl

theorem withDefault_nil (default : α) : withDefault ⟨[], false⟩ name read default = some default := rfl

end Lookup

end Fields

/-! ### Rows -/

/-- The numbers of a row are of their types. -/
structure StatementRow.Ranged (r : StatementRow) : Prop where
  naturalId : r.naturalId < UInt64.size
  parentId : ∀ id ∈ r.parentId, id < UInt64.size
  blockNum : r.blockNum < UInt64.size

@[simp] theorem StatementRow.written_toJson (r : StatementRow) : r.toJson.Written := by
  simp [StatementRow.toJson, Json.word]

theorem StatementRow.ofJson?_toJson {r : StatementRow} (h : r.Ranged) : StatementRow.ofJson? r.toJson = some r := by
  have hid := Json.toSize?_nat h.naturalId
  have hparent : Json.toNullable? Json.toSize? (.option .nat r.parentId) = some r.parentId :=
    Json.toNullable?_option rfl fun id hmem => Json.toSize?_nat (h.parentId id hmem)
  have hlabel : Json.toNullable? Json.toText? (.option .string r.blockLabel) = some r.blockLabel :=
    Json.toNullable?_option rfl fun _ _ => rfl
  have hblock := Json.toSize?_nat h.blockNum
  obtain ⟨naturalId, parentId, blockLabel, blockNum, line, kind, execCount, errorCount, totalTime, maxTime, rows,
    fingerprint⟩ := r
  unfold ofJson? toJson
  -- the fingerprint is written only if there is one
  cases fingerprint with
  | none =>
    rw [Fields.ofJson?_object_bind (by simp) (by simp)]
    simp only [Option.toList_none, List.map_nil, List.append_nil, Fields.required_cons, Fields.nullable_cons,
      Fields.withDefault_cons, Fields.withDefault_nil, String.reduceEq, ↓reduceIte, hid, hparent, hlabel, hblock,
      Json.toText?, Json.toWord?_word, Json.toLine?_int]
    rfl
  | some fp =>
    have hfp : Json.toNullable? Json.toWord? (.word fp) = some (some fp) :=
      Json.toNullable?_some rfl (Json.toWord?_word fp)
    rw [Fields.ofJson?_object_bind (by simp) (by simp)]
    simp only [Option.toList_some, List.map_singleton, List.cons_append, List.nil_append, Fields.required_cons,
      Fields.nullable_cons, Fields.withDefault_cons, String.reduceEq, ↓reduceIte, hid, hparent, hlabel, hblock, hfp,
      Json.toText?, Json.toWord?_word, Json.toLine?_int]
    rfl

/-- The number of statements on a line is of its type. -/
def LineRow.Ranged (r : LineRow) : Prop := r.statements < UInt64.size

@[simp] theorem LineRow.written_toJson (r : LineRow) : r.toJson.Written := by
  simp [LineRow.toJson, Json.word]

theorem LineRow.ofJson?_toJson {r : LineRow} (h : r.Ranged) : LineRow.ofJson? r.toJson = some r := by
  have hline : Json.toNullable? Json.toLine? (.option (fun l => .int l.toInt) r.statementLine) =
      some r.statementLine := Json.toNullable?_option rfl fun l _ => Json.toLine?_int l
  have hwords : ∀ words : List Counter, Json.toList? Json.toWord? (.array (words.map .word)) = some words :=
    fun words => Json.toList?_map fun w _ => Json.toWord?_word w
  unfold ofJson? toJson
  rw [Fields.ofJson?_object_bind (by simp) (by simp)]
  simp only [Fields.required_cons, Fields.nullable_cons, String.reduceEq, ↓reduceIte, hline, hwords,
    Json.toSize?_nat h, Json.toText?, Json.toWord?_word, Json.toLine?_int]
  rfl

/-! ### Coverage and call statistics -/

/-- Counts that are of their type. -/
structure CoverageCounts.Ranged (c : CoverageCounts) : Prop where
  statements : c.statements < UInt64.size
  executedStatements : c.executedStatements < UInt64.size
  branches : c.branches < UInt64.size
  executedBranches : c.executedBranches < UInt64.size
  anomalies : c.anomalies < UInt64.size

/-- A coverage whose numbers come back. -/
structure CoverageReport.Recoverable (c : CoverageReport) : Prop where
  counts : c.counts.Ranged
  statementRatio : Json.ReadsBack c.statementRatio
  branchRatio : Json.ReadsBack c.branchRatio

@[simp] theorem CoverageReport.written_toJson (c : CoverageReport) : (c.toJson Json.float).Written := by
  simp [CoverageReport.toJson, CoverageCounts.fields]

theorem Json.isMeaningful_nat {n : Nat} (h : n < UInt64.size) : (Json.nat n).isMeaningful = true := by
  simp [nat, isMeaningful, JsonNumber.toInt?_ofNat h]

theorem Json.depth_nat (n : Nat) : (Json.nat n).depth = 0 := by simp [nat, depth]

theorem CoverageReport.ofJson?_toJson {c : CoverageReport} (h : c.Recoverable) :
    CoverageReport.ofJson? (c.toJson Json.float) = some c := by
  obtain ⟨hstatements, hexecuted, hbranches, hexecutedBranches, hanomalies⟩ := h.counts
  rw [toJson, CoverageCounts.fields, ofJson?,
    Fields.ofJson?_object_bind (by simp [ownNames, CoverageCounts.names]) (by simp), if_pos]
  · simp only [List.cons_append, List.nil_append, Fields.required_cons, String.reduceEq, ↓reduceIte, Json.toId?_nat,
      Json.toText?, Json.toSize?_nat, hstatements, hexecuted, hbranches, hexecutedBranches, hanomalies,
      Json.toFloat?_float h.statementRatio, Json.toFloat?_float h.branchRatio]
    rfl
  · simp [admits, ownNames, Json.isMeaningful_nat, Json.depth_nat, hstatements, hexecuted, hbranches,
      hexecutedBranches, hanomalies]

/-- Call statistics whose doubles come back. -/
structure UnitSummary.Recoverable (s : UnitSummary) : Prop where
  meanTime : Json.ReadsBack s.meanTime
  stddevTime : Json.ReadsBack s.stddevTime

@[simp] theorem UnitSummary.written_toJson (s : UnitSummary) : (s.toJson Json.float).Written := by
  simp [UnitSummary.toJson, Json.word]

theorem UnitSummary.ofJson?_toJson {s : UnitSummary} (h : s.Recoverable) :
    UnitSummary.ofJson? (s.toJson Json.float) = some s := by
  unfold ofJson? toJson
  rw [Fields.ofJson?_object_bind (by simp) (by simp)]
  simp only [Fields.required_cons, String.reduceEq, ↓reduceIte, Json.toId?_nat, Json.toWord?_word,
    Json.toFloat?_float h.meanTime, Json.toFloat?_float h.stddevTime]
  rfl

/-! ### Reports -/

/-- A report whose numbers come back. -/
structure Report.Recoverable (r : Report) : Prop where
  statements : ∀ row ∈ r.statements, row.Ranged
  lines : ∀ row ∈ r.lines, row.Ranged
  coverage : r.coverage.Recoverable
  summary : ∀ s ∈ r.summary, s.Recoverable

theorem Report.written_toJson (r : Report) : (r.toJson Json.float).Written := by
  unfold toJson
  split_ifs
  · simp
  · simp

theorem Report.ofJson?_toJson {r : Report} (h : r.Recoverable) : Report.ofJson? (r.toJson Json.float) = some r := by
  have hstatements : Json.toList? StatementRow.ofJson? (.array (r.statements.map StatementRow.toJson)) =
      some r.statements := Json.toList?_map fun row hmem => StatementRow.ofJson?_toJson (h.statements row hmem)
  have hlines : Json.toList? LineRow.ofJson? (.array (r.lines.map LineRow.toJson)) = some r.lines :=
    Json.toList?_map fun row hmem => LineRow.ofJson?_toJson (h.lines row hmem)
  have hcoverage := CoverageReport.ofJson?_toJson h.coverage
  have hsummary : ∀ s, r.summary = some s →
      Json.toNullable? UnitSummary.ofJson? (UnitSummary.toJson Json.float s) = some (some s) := by
    intro s hs
    exact Json.toNullable?_some rfl (UnitSummary.ofJson?_toJson (h.summary s hs))
  obtain ⟨version, generatedAt, unitId, ownerDb, name, statements, lines, coverage, summary⟩ := r
  unfold ofJson? toJson
  -- lines and call statistics are written only if there are any
  rcases lines with _ | ⟨line, lines⟩
  all_goals
    rcases summary with _ | s
    all_goals
      rw [Fields.ofJson?_object_bind (by simp) (by simp)]
      simp only [List.isEmpty_nil, List.isEmpty_cons, Bool.false_eq_true, Option.toList_none, Option.toList_some,
        List.map_nil, List.map_singleton, List.cons_append, List.nil_append, List.append_nil, Fields.required_cons,
        Fields.withDefault_cons, Fields.withDefault_nil, String.reduceEq, ↓reduceIte, Json.toText?, Json.toId?_nat,
        hstatements, hlines, hcoverage, hsummary]
      rfl

/-! ### Dumps -/

/-- Numbers that are of their type. -/
structure RegionInfo.Ranged (i : RegionInfo) : Prop where
  capacity : i.capacity < UInt64.size
  usedChunks : i.usedChunks < UInt64.size
  freeChunks : i.freeChunks < UInt64.size
  unitCapacity : i.unitCapacity < UInt64.size
  usedUnits : i.usedUnits < UInt64.size

@[simp] theorem RegionInfo.written_toJson (i : RegionInfo) : i.toJson.Written := by simp [RegionInfo.toJson]

theorem RegionInfo.ofJson?_toJson {i : RegionInfo} (h : i.Ranged) : RegionInfo.ofJson? i.toJson = some i := by
  obtain ⟨hcapacity, hused, hfree, hunits, husedUnits⟩ := h
  unfold ofJson? toJson
  rw [Fields.ofJson?_object_bind (by simp) (by simp)]
  simp only [Fields.required_cons, String.reduceEq, ↓reduceIte, Json.toBool?, Json.toId?_nat, Json.toSize?_nat,
    hcapacity, hused, hfree, hunits, husedUnits]
  rfl

/-- What fills the words of a record in an image is zero. -/
structure Record.Plain (r : Record) : Prop where
  lineFiller : r.lineFiller = 0
  markFiller : r.markFiller = 0

@[simp] theorem Record.written_toJson (r : Record) : r.toJson.Written := by simp [Record.toJson, Json.word]

theorem Record.ofJson?_toJson {r : Record} (h : r.Plain) : Record.ofJson? r.toJson = some r := by
  obtain ⟨line, queryFingerprint, hasFingerprint, maxTime, totalTime, rows, execCount, errorCount, lineFiller,
    markFiller⟩ := r
  obtain ⟨rfl, rfl⟩ := h
  unfold ofJson? toJson
  rw [Fields.ofJson?_object_bind (by simp) (by simp)]
  simp only [Fields.required_cons, String.reduceEq, ↓reduceIte, Json.toBool?, Json.toLine?_int, Json.toWord?_word]
  rfl

@[simp] theorem Identity.written_toJson (id : Identity) : id.toJson.Written := by simp [Identity.toJson, Json.word]

theorem Identity.ofJson?_toJson (id : Identity) : Identity.ofJson? id.toJson = some id := by
  unfold ofJson? toJson
  rw [Fields.ofJson?_object_bind (by simp) (by simp)]
  simp only [Fields.required_cons, String.reduceEq, ↓reduceIte, Json.toId?_nat, Json.toWord?_word]
  rfl

/-- What fills the key and the records of a chunk in an image is zero. -/
structure Chunk.Plain (c : Chunk) : Prop where
  filler : c.key.filler = 0
  records : ∀ r ∈ c.records, r.Plain

@[simp] theorem Chunk.written_toJson (c : Chunk) : c.toJson.Written := by simp [Chunk.toJson]

theorem Chunk.ofJson?_toJson {c : Chunk} (h : c.Plain) : Chunk.ofJson? c.toJson = some c := by
  obtain ⟨⟨identity, number, filler⟩, records⟩ := c
  obtain ⟨rfl, hplain⟩ := h
  have hkey : ChunkKey.ofJson? (.object [("identity", identity.toJson), ("chunk_number", .int number.toInt)]) =
      some (ChunkKey.new identity number) := by
    unfold ChunkKey.ofJson?
    rw [Fields.ofJson?_object_bind (by simp) (by simp)]
    simp only [Fields.required_cons, String.reduceEq, ↓reduceIte, Identity.ofJson?_toJson, Json.toChunkNumber?_int]
    rfl
  have hrecords : Json.toList? Record.ofJson? (.array (records.map Record.toJson)) = some records :=
    Json.toList?_map fun r hmem => Record.ofJson?_toJson (hplain r hmem)
  unfold ofJson? toJson
  rw [Fields.ofJson?_object_bind (by simp) (by simp)]
  simp only [Fields.required_cons, String.reduceEq, ↓reduceIte, hkey, hrecords]
  rfl

/-- A dump whose numbers come back, and in which nothing is left out but zeros. -/
structure RegionDump.Recoverable (d : RegionDump) : Prop where
  info : d.info.Ranged
  chunks : ∀ c ∈ d.chunks, c.Plain
  units : ∀ s ∈ d.units, s.Recoverable

theorem RegionDump.written_toJson (d : RegionDump) : (d.toJson Json.float).Written := by simp [RegionDump.toJson]

theorem RegionDump.ofJson?_toJson {d : RegionDump} (h : d.Recoverable) :
    RegionDump.ofJson? (d.toJson Json.float) = some d := by
  have hchunks : Json.toList? Chunk.ofJson? (.array (d.chunks.map Chunk.toJson)) = some d.chunks :=
    Json.toList?_map fun c hmem => Chunk.ofJson?_toJson (h.chunks c hmem)
  have hunits : Json.toList? UnitSummary.ofJson? (.array (d.units.map (UnitSummary.toJson Json.float))) =
      some d.units := Json.toList?_map fun s hmem => UnitSummary.ofJson?_toJson (h.units s hmem)
  unfold ofJson? toJson
  rw [Fields.ofJson?_object_bind (by simp) (by simp)]
  simp only [Fields.required_cons, Fields.withDefault_cons, String.reduceEq, ↓reduceIte, Json.toText?,
    RegionInfo.ofJson?_toJson h.info, hchunks, hunits]
  rfl

end ProcProfile
