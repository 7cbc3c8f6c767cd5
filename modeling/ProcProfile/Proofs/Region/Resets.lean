import Mathlib.Tactic
import ProcProfile.Proofs.Region.Apart
import ProcProfile.Proofs.Region.ChunkMap
import ProcProfile.Proofs.Region.Summaries
import ProcProfile.Session

/-!
# What a reset of a procedure removes

The chunks of one procedure, or of all, are removed by a scan of the table, and its call statistics by their key.
What is left can be read as before: slots that were given up stand in nobody's way.

* `ResetScope.ofUnit`, `inScope`: the scope of a reset, and what it is about;
* `length_dump`, `length_filter_dump`: dumps counted by slots;
* `chunk?_reset`, `ChunksReset`, `chunksReset_of_reset`: a reset of chunks;
* `snapshot_resetStats`: a reset of call statistics;
* `resetAll_eq`: chunks and call statistics can be reset in either order.
-/

namespace ProcProfile

/-- The scope of a reset of one procedure, or of all. -/
def ResetScope.ofUnit : Option UnitKey → ResetScope
  | none => .all
  | some key => .unit key

/-- Whether a reset of one procedure, or of all, is about a procedure. -/
def inScope (unit : Option UnitKey) (key : UnitKey) : Bool := unit.all fun only => key == only

theorem inScope_iff {unit : Option UnitKey} {key : UnitKey} :
    inScope unit key = true ↔ unit = none ∨ unit = some key := by
  cases unit with
  | none => exact ⟨fun _ => .inl rfl, fun _ => rfl⟩
  | some only =>
    constructor
    · intro h
      exact .inr (congrArg some (eq_of_beq h).symm)
    · rintro (h | h)
      · cases h
      · cases h
        exact beq_self_eq_true _

theorem Table.indices_eq_filter {κ ν : Type} [Inhabited κ] [Inhabited ν] (t : Table κ ν) (test : κ → Bool) :
    t.indices test = (t.indices fun _ => true).filter fun i => test (t.get i).key := by
  unfold indices
  rw [List.filter_filterMap]
  refine List.filterMap_congr fun a ha => ?_
  simp only [Bool.and_true]
  cases ha' : a.2.isUsed with
  | false => simp
  | true => simp [Option.filter, get_of_mem_toList ha]

namespace Region

variable {r r' : Region} {unit : Option UnitKey} {n : Nat}

/-! ### Chunks -/

theorem length_dump (h : r.Sound) : r.dump.length = r.header.used.toNat := by
  rw [dump, List.length_mergeSort, List.length_map, Table.length_entries, h.chunks.count]

/-- A dump lists as many chunks of a kind as there are slots with one. -/
theorem length_filter_dump (r : Region) (test : ChunkKey → Bool) :
    (r.dump.filter fun c => test c.key).length = (r.chunks.indices test).length := by
  rw [dump, ((List.mergeSort_perm _ _).filter _).length_eq, Table.entries_eq_map, List.map_map, List.filter_map,
    List.length_map, r.chunks.indices_eq_filter test]
  rfl

/-- A reset of one procedure, or of all, never stops. -/
theorem exists_reset (r : Region) (unit : Option UnitKey) : ∃ r' n, r.reset (.ofUnit unit) = .ok (r', n) := by
  cases unit with
  | none => exact ⟨_, _, rfl⟩
  | some key => exact ⟨_, _, rfl⟩

/-- A reset of chunks leaves the call statistics as they were. -/
theorem withUnits_reset {scope : ResetScope} (hrun : r.reset scope = .ok (r', n)) : r'.withUnits r = r' := by
  have hchunks : (StoreRequest.reset scope).OnChunks := trivial
  refine units_of_serve hchunks ?_
  rw [serve, hrun]
  rfl

theorem chunk?_reset (h : r.Settled) (hrun : r.reset (.ofUnit unit) = .ok (r', n)) (key : ChunkKey) :
    r'.chunk? key = if inScope unit key.identity.unitKey then none else r.chunk? key := by
  cases unit with
  | none =>
    cases hrun
    exact chunk?_clear h.sound key
  | some only =>
    cases hrun
    refine (removedFrom_foldl h _).chunk?_eq h.sound (fun key => inScope (some only) key.identity.unitKey = true)
      (fun i key hi => ?_) key
    rw [Table.mem_indices, hi.2]
    exact and_iff_right hi.1

/-- As many chunks are told to be removed as the dump has lost. -/
theorem count_reset (h : r.Sound) (hrun : r.reset (.ofUnit unit) = .ok (r', n)) :
    n = (r.dump.filter fun c => inScope unit c.key.identity.unitKey).length := by
  cases unit with
  | none =>
    cases hrun
    have hall : (r.dump.filter fun c => inScope none c.key.identity.unitKey) = r.dump :=
      List.filter_eq_self.2 fun _ _ => rfl
    rw [hall, length_dump h]
  | some only =>
    cases hrun
    exact (r.length_filter_dump fun key => key.identity.unitKey == only).symm

/-- Two regions of which everything that can be read about calls is the same. -/
structure SameCalls (r r' : Region) : Prop where
  summary : ∀ o key, Access.answer <$> r'.summary? o key = Access.answer <$> r.summary? o key
  summaries : ∀ o, Access.answer <$> r'.summaries o = Access.answer <$> r.summaries o
  summariesOf : ∀ o db, Access.answer <$> r'.summariesOf o db = Access.answer <$> r.summariesOf o db

theorem sameCalls_of_units (h : r.Settled) (h' : r'.Settled) (hunits : r'.units = r.units) : SameCalls r r' := by
  have hstats : r'.stats? = r.stats? := by
    unfold stats? findUnit? stats
    rw [hunits]
  have hsnapshot : r'.snapshot = r.snapshot := by
    unfold snapshot
    rw [hunits]
  refine ⟨fun o key => ?_, fun o => ?_, fun o db => ?_⟩
  · rw [summary?_answer h', summary?_answer h, hstats]
  · rw [summaries_answer h', summaries_answer h, hsnapshot]
  · rw [summariesOf_answer h', summariesOf_answer h, hsnapshot]

/-- What is left of a region from which the chunks of one procedure, or of all, were removed. -/
structure ChunksReset (r : Region) (unit : Option UnitKey) (r' : Region) (n : Nat) : Prop where
  dump : r'.dump = r.dump.filter fun c => !inScope unit c.key.identity.unitKey
  removed : n = (r.dump.filter fun c => inScope unit c.key.identity.unitKey).length
  used : ∀ shared, (r'.info shared).usedChunks + n = (r.info shared).usedChunks
  findChunk : ∀ o id number, inScope unit id.unitKey = false →
    Access.answer <$> r'.findChunk o id number = Access.answer <$> r.findChunk o id number
  readRecords : ∀ o id, inScope unit id.unitKey = false →
    Access.answer <$> r'.readRecords o id = Access.answer <$> r.readRecords o id
  calls : SameCalls r r'

theorem chunksReset_of_reset (h : r.Tidy) (hrun : r.reset (.ofUnit unit) = .ok (r', n)) :
    ChunksReset r unit r' n := by
  have h' := h.reset hrun
  have hchunks := chunk?_reset h.settled hrun
  have hcount := count_reset h.settled.sound hrun
  have hdump : r'.dump = r.dump.filter fun c => !inScope unit c.key.identity.unitKey := by
    refine dump_eq_filter h h' (q := fun key => !inScope unit key.identity.unitKey) fun key => ?_
    rw [hchunks]
    cases inScope unit key.identity.unitKey <;> rfl
  have hothers : ∀ id, inScope unit id.unitKey = false → ∀ key : ChunkKey, key.identity = id →
      r'.chunk? key = r.chunk? key := by
    rintro id hid key rfl
    rw [hchunks, hid]
    rfl
  have hunits : r'.units = r.units := by
    rw [← withUnits_reset hrun, units_withUnits]
  refine ⟨hdump, hcount, fun shared => ?_, fun o id number hid => ?_, fun o id hid => ?_,
    sameCalls_of_units h.settled h'.settled hunits⟩
  · change r'.header.used.toNat + n = r.header.used.toNat
    rw [← length_dump h'.settled.sound, ← length_dump h.settled.sound, hdump, hcount,
      List.length_eq_length_filter_add (l := r.dump) fun c => inScope unit c.key.identity.unitKey]
    exact Nat.add_comm _ _
  · exact findChunk_congr h.settled h'.settled (hothers id hid) o number
  · exact readRecords_congr h.settled h'.settled (hothers id hid) o

/-! ### Call statistics -/

/-- A reset of call statistics takes those of its procedures out of the list. -/
theorem snapshot_resetStats (h : r.Settled) (unit : Option UnitKey) :
    (r.resetStats unit).1.snapshot = r.snapshot.filter fun u => !inScope unit u.unitKey := by
  have h' := (h.resetStats unit).1
  refine eq_of_pairwise_rank (pairwise_snapshot h'.sound) ((pairwise_snapshot h.sound).filter _) fun u => ?_
  rw [List.mem_filter, mem_snapshot h'.sound, mem_snapshot h.sound, stats?_resetStats h]
  by_cases hu : inScope unit u.unitKey = true
  · rw [if_pos (inScope_iff.1 hu)]
    simp [hu]
  · rw [if_neg fun hor => hu (inScope_iff.2 hor)]
    simp [hu]

/-- A reset of call statistics leaves the chunks as they were. -/
theorem withUnits_resetStats (r : Region) (unit : Option UnitKey) :
    r.withUnits (r.resetStats unit).1 = (r.resetStats unit).1 :=
  eq_withUnits_of_serve (fun h : (StoreRequest.resetStats unit).OnChunks => h) rfl

/-- Call statistics go before the chunks or after them, with the same region left and the same number told. -/
theorem resetAll_eq (r : Region) (unit : Option UnitKey) :
    r.resetAll (.ofUnit unit) = (do
      let out ← r.reset (.ofUnit unit)
      return ((out.1.resetStats unit).1, out.2)) := by
  have hfirst : r.resetAll (.ofUnit unit) = (r.resetStats unit).1.reset (.ofUnit unit) := by
    cases unit <;> rfl
  rw [hfirst, ← withUnits_resetStats, reset_withUnits]
  obtain ⟨r', n, hrun⟩ := r.exists_reset unit
  have hunits := r'.resetStats_withUnits r unit
  rw [withUnits_reset hrun] at hunits
  rw [hrun]
  change Except.ok (r'.withUnits (r.resetStats unit).1, n) = Except.ok ((r'.resetStats unit).1, n)
  rw [hunits]

end Region

end ProcProfile
