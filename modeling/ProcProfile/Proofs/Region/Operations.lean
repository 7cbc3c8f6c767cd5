import Mathlib.Tactic
import ProcProfile.Proofs.Region.Lockstep

/-!
# Operations

All operations on the profiles and the call statistics of a region, each with its answer.  The locks that an
operation takes are those of the chunk 1 of an incarnation, of the call statistics of a procedure, or of all call
statistics one after another.

* `Operation`, `Answer`, `Operation.run`;
* `Operation.alike`, `Operation.moves`: what holds for all of them;
* `LockPlace`, `Operation.locks`, `Operation.released`: the locks that an operation takes are free afterwards, and
  whoever held one of them loses it.
-/

namespace ProcProfile

/-- What may be done with the region of a store. -/
inductive Operation where
  | fold (id : Identity) (records : List Record)
  | insertChunk (id : Identity) (number : ChunkNumber)
  | reset (scope : ResetScope)
  | findChunk (id : Identity) (number : ChunkNumber)
  | readRecords (id : Identity)
  | dump
  | recordCall (key : UnitKey) (elapsed : Counter) (isError : Bool)
  | summary (key : UnitKey)
  | summaries
  | summariesOf (db : UInt32)
  | resetStats (unit : Option UnitKey)

/-- What a store answers. -/
inductive Answer where
  | info (info : RegionInfo)
  | done (outcome : Except StoreError Unit)
  | inserted (outcome : Except StoreError Chunk)
  | removed (count : Nat)
  | found (chunk : Option Chunk)
  | stored (records : Option (List Record))
  | dumped (chunks : List Chunk)
  | summary (summary : Option UnitSummary)
  | summaries (list : List UnitSummary)

namespace Operation

def run (op : Operation) (o : Owner) (r : Region) : Except Fault (Access Answer) :=
  match op with
  | .fold id records => Access.map .done <$> r.fold o id records
  | .insertChunk id number => .ok (.pure (r.insertChunk id number).1 (.inserted (r.insertChunk id number).2))
  | .reset scope => (fun out => .pure out.1 (.removed out.2)) <$> r.reset scope
  | .findChunk id number => Access.map .found <$> r.findChunk o id number
  | .readRecords id => Access.map .stored <$> r.readRecords o id
  | .dump => .ok (.pure r (.dumped r.dump))
  | .recordCall key elapsed isError => Access.map .done <$> r.recordCall o key elapsed isError
  | .summary key => Access.map .summary <$> r.summary? o key
  | .summaries => Access.map .summaries <$> r.summaries o
  | .summariesOf db => Access.map .summaries <$> r.summariesOf o db
  | .resetStats unit => .ok (.pure (r.resetStats unit).1 (.removed (r.resetStats unit).2))

variable {op : Operation} {o o' : Owner} {r r' : Region} {access : Access Answer}

/-! ### All operations -/

theorem together_map {α : Type} {x y : Except Fault (Access α)} (h : Region.Together x y) (f : α → Answer) :
    Region.Together (Access.map f <$> x) (Access.map f <$> y) := by
  cases h with
  | ok h => exact .ok ⟨h.region, congrArg f h.answer⟩
  | error h => exact .error h

/-- No operation tells regions apart that are alike, if it can take their locks. -/
theorem alike (h : r.Matches r') (hr : r.Takeable o) (hr' : r'.Takeable o') (op : Operation) :
    Region.Together (op.run o r) (op.run o' r') := by
  cases op with
  | fold id records => exact together_map (h.fold hr hr' id records) .done
  | insertChunk id number =>
    have hinsert := h.insertChunk id number
    exact .ok ⟨hinsert.region, congrArg Answer.inserted hinsert.answer⟩
  | reset scope =>
    have hreset := h.reset scope
    unfold run
    dsimp only
    generalize r.reset scope = x at hreset ⊢
    generalize r'.reset scope = y at hreset ⊢
    cases hreset with
    | ok hab => exact .ok ⟨hab.region, congrArg Answer.removed hab.answer⟩
    | error hf => exact .error hf
  | findChunk id number => exact together_map (h.findChunk hr hr' id number) .found
  | readRecords id => exact together_map (h.readRecords hr hr' id) .stored
  | dump => exact .ok ⟨h, congrArg Answer.dumped h.dump_eq⟩
  | recordCall key elapsed isError => exact together_map (h.recordCall hr hr' key elapsed isError) .done
  | summary key => exact together_map (h.summary? hr hr' key) .summary
  | summaries => exact together_map (h.summaries hr hr') .summaries
  | summariesOf db => exact together_map (h.summariesOf hr hr' db) .summaries
  | resetStats unit =>
    have hreset := h.resetStats unit
    exact .ok ⟨hreset.region, congrArg Answer.removed hreset.answer⟩

/-- A property of pages that an operation keeps. -/
def Keeps (A : List Record → Prop) : Operation → Prop
  | .fold _ records => Region.FoldKeeps A records
  | _ => True

/-- Every operation is made of the same few changes. -/
theorem moves {A : List Record → Prop} (hA : op.Keeps A) (hstored : ∀ i, A (r.page i))
    (hrun : op.run o r = .ok access) : Region.Moves A r access.region := by
  cases op with
  | fold id records =>
    obtain ⟨a, ha, rfl⟩ := map_eq_ok_iff.1 hrun
    exact Region.fold_moves hA hstored ha
  | insertChunk id number =>
    cases hrun
    exact Region.insertChunk_moves r id number
  | reset scope =>
    obtain ⟨out, hout, rfl⟩ := map_eq_ok_iff.1 hrun
    exact Region.reset_moves hout
  | findChunk id number =>
    obtain ⟨a, ha, rfl⟩ := map_eq_ok_iff.1 hrun
    exact Region.findChunk_moves ha
  | readRecords id =>
    obtain ⟨a, ha, rfl⟩ := map_eq_ok_iff.1 hrun
    exact Region.readRecords_moves ha
  | dump =>
    cases hrun
    exact .refl r
  | recordCall key elapsed isError =>
    obtain ⟨a, ha, rfl⟩ := map_eq_ok_iff.1 hrun
    exact Region.recordCall_moves ha
  | summary key =>
    obtain ⟨a, ha, rfl⟩ := map_eq_ok_iff.1 hrun
    exact Region.summary?_moves ha
  | summaries =>
    obtain ⟨a, ha, rfl⟩ := map_eq_ok_iff.1 hrun
    exact Region.summaries_moves ha
  | summariesOf db =>
    obtain ⟨a, ha, rfl⟩ := map_eq_ok_iff.1 hrun
    exact Region.summariesOf_moves ha
  | resetStats unit =>
    cases hrun
    exact Region.resetStats_moves r unit

theorem frame (hrun : op.run o r = .ok access) : Region.Frame r access.region := by
  have hkeeps : op.Keeps fun _ => True := by
    cases op with
    | fold => exact ⟨fun _ _ => trivial, fun _ _ _ _ _ _ => trivial⟩
    | _ => exact trivial
  exact (moves hkeeps (fun _ => trivial) hrun).frame

end Operation

/-! ### Locks -/

/-- The lock of a chunk slot or of a unit slot. -/
inductive LockPlace where
  | chunk (i : Nat)
  | unit (i : Nat)

/-- Takes a lock: whoever held it before was dead. -/
theorem Owner.retired_of_take {o : Owner} {word : UInt32} {retired : List UInt32} (h : o.take word = .ok retired) :
    retired = [word].filter (· ≠ 0) := by
  unfold take at h
  split_ifs at h with hzero hwaits
  · cases h
    simp [hzero]
  · cases h
    simp [hzero]

namespace Region

variable {α : Type} {o : Owner} {r q : Region} {access : Access α}

/-- The word of a lock. -/
def word (r : Region) : LockPlace → UInt32
  | .chunk i => (r.chunks.get i).mutex
  | .unit i => (r.units.get i).mutex

theorem Frame.word (h : Frame r q) (l : LockPlace) : q.word l = 0 ∨ q.word l = r.word l := by
  cases l with
  | chunk i => exact h.chunks i
  | unit i => exact h.units i

/-- Locks that are free stay so. -/
theorem Frame.free (h : Frame r q) (hr : ∀ l, r.word l = 0) (l : LockPlace) : q.word l = 0 := by
  rcases h.word l with hq | hq
  · exact hq
  · exact hq.trans (hr l)

theorem takeable_iff : r.Takeable o ↔ ∀ l, o.CanTake (r.word l) := by
  constructor
  · intro h l
    cases l with
    | chunk i => exact h.chunk i
    | unit i => exact h.unit i
  · intro h
    exact ⟨fun i => h (.chunk i), fun i => h (.unit i)⟩

/-- An operation took these locks, in this order: they are free afterwards, and the dead owners that held them lost
them. -/
structure Took (r : Region) (places : List LockPlace) (access : Access α) : Prop where
  released : ∀ l ∈ places, access.region.word l = 0
  retired : access.retired = (places.map r.word).filter (· ≠ 0)

theorem took_pure (r q : Region) (answer : α) : Took r [] (.pure q answer) := ⟨nofun, rfl⟩

theorem Took.map {β : Type} {places : List LockPlace} (h : Took r places access) (f : α → β) :
    Took r places (access.map f) := ⟨h.released, h.retired⟩

theorem took_withChunk {i : Nat} {body : Region → Except Fault (Region × α)}
    (hrun : r.withChunk o i body = .ok access) : Took r [.chunk i] access := by
  obtain ⟨retired, htake, hrun⟩ := bind_eq_ok_iff.1 hrun
  obtain ⟨out, -, hrun⟩ := bind_eq_ok_iff.1 hrun
  cases hrun
  refine ⟨fun l hl => ?_, Owner.retired_of_take htake⟩
  rw [List.mem_singleton.1 hl]
  exact Table.mutex_setMutex_zero _ i

theorem took_withUnit {i : Nat} {body : Region → Except Fault (Region × α)}
    (hrun : r.withUnit o i body = .ok access) : Took r [.unit i] access := by
  obtain ⟨retired, htake, hrun⟩ := bind_eq_ok_iff.1 hrun
  obtain ⟨out, -, hrun⟩ := bind_eq_ok_iff.1 hrun
  cases hrun
  refine ⟨fun l hl => ?_, Owner.retired_of_take htake⟩
  rw [List.mem_singleton.1 hl]
  exact Table.mutex_setMutex_zero _ i

theorem took_summariesAt {slots : List Nat} {access : Access (List UnitSummary)} (hslots : slots.Nodup)
    (hrun : summariesAt o slots r = .ok access) : Took r (slots.map .unit) access := by
  induction slots generalizing r access with
  | nil =>
    cases hrun
    exact took_pure r r []
  | cons i slots ih =>
    obtain ⟨hi, hslots⟩ := List.nodup_cons.1 hslots
    obtain ⟨here, hhere, hrun⟩ := bind_eq_ok_iff.1 hrun
    obtain ⟨after, hafter, hrun⟩ := bind_eq_ok_iff.1 hrun
    obtain ⟨rest, hrest, hafter⟩ := bind_eq_ok_iff.1 hafter
    cases hafter
    cases hrun
    have htook := took_withUnit hhere
    have hbehind := ih hslots hrest
    -- the words of the slots to come are as they were
    have hwords : ∀ j ∈ slots, here.region.word (.unit j) = r.word (.unit j) := by
      intro j hj
      have hne : i ≠ j := fun he => hi (he ▸ hj)
      obtain ⟨retired, -, hhere⟩ := bind_eq_ok_iff.1 hhere
      cases hhere
      show ((((r.units.setMutex i o.id).setMutex i 0).get j).mutex) = _
      rw [Table.get_setMutex_of_ne _ hne, Table.get_setMutex_of_ne _ hne]
      rfl
    constructor
    · intro l hl
      rcases List.mem_cons.1 hl with rfl | hl
      · have hzero := htook.released _ List.mem_cons_self
        rcases (summariesAt_moves (A := fun _ => True) hrest).frame.word (.unit i) with h | h
        · exact h
        · exact h.trans hzero
      · exact hbehind.released l hl
    · have hsame : (slots.map LockPlace.unit).map here.region.word = (slots.map LockPlace.unit).map r.word := by
        simpa using hwords
      show here.retired ++ rest.retired = _
      rw [htook.retired, hbehind.retired, hsame, ← List.filter_append]
      rfl

/-- The lock that guards an incarnation: that of its first chunk. -/
def firstLock (r : Region) (id : Identity) : List LockPlace := ((r.find? (.first id)).map .chunk).toList

/-- The lock that guards the call statistics of a procedure. -/
def unitLock (r : Region) (key : UnitKey) : List LockPlace := ((r.findUnit? key).map .unit).toList

theorem took_fold {id : Identity} {records : List Record} {access : Access (Except StoreError Unit)}
    (hrun : r.fold o id records = .ok access) : Took r (r.firstLock id) access := by
  unfold fold at hrun
  unfold firstLock
  cases hfind : r.find? (.first id) with
  | some i =>
    rw [hfind] at hrun
    exact took_withChunk hrun
  | none =>
    rw [hfind] at hrun
    obtain ⟨out, -, hrun⟩ := bind_eq_ok_iff.1 hrun
    cases hrun
    exact took_pure r _ _

theorem took_findChunk {id : Identity} {number : ChunkNumber} {access : Access (Option Chunk)}
    (hrun : r.findChunk o id number = .ok access) :
    Took r (if (r.find? (.new id number)).isSome then r.firstLock id else []) access := by
  unfold findChunk at hrun
  dsimp only at hrun
  cases hfind : r.find? (.new id number) with
  | none =>
    rw [hfind] at hrun
    cases hrun
    exact took_pure r _ _
  | some i =>
    rw [hfind] at hrun
    dsimp only at hrun
    -- chunk 1 is guarded by its own lock
    have hfirst : (if number = 1 then some i else r.find? (.first id)) = r.find? (.first id) := by
      split_ifs with hone
      · rw [← hfind, hone]
        rfl
      · rfl
    rw [hfirst] at hrun
    rw [Option.isSome_some, if_pos rfl]
    unfold firstLock
    cases hlock : r.find? (.first id) with
    | none =>
      rw [hlock] at hrun
      cases hrun
      exact took_pure r _ _
    | some first =>
      rw [hlock] at hrun
      exact took_withChunk hrun

theorem took_readRecords {id : Identity} {access : Access (Option (List Record))}
    (hrun : r.readRecords o id = .ok access) : Took r (r.firstLock id) access := by
  unfold readRecords at hrun
  unfold firstLock
  cases hfind : r.find? (.first id) with
  | some i =>
    rw [hfind] at hrun
    exact took_withChunk hrun
  | none =>
    rw [hfind] at hrun
    cases hrun
    exact took_pure r _ _

theorem took_recordCall {key : UnitKey} {elapsed : Counter} {isError : Bool}
    {access : Access (Except StoreError Unit)} (hrun : r.recordCall o key elapsed isError = .ok access) :
    Took r (r.unitLock key) access := by
  unfold recordCall at hrun
  unfold unitLock
  cases hfind : r.findUnit? key with
  | some i =>
    rw [hfind] at hrun
    exact took_withUnit hrun
  | none =>
    rw [hfind] at hrun
    dsimp only at hrun
    split at hrun
    · cases hrun
      exact took_pure r _ _
    · obtain ⟨stats, -, hrun⟩ := bind_eq_ok_iff.1 hrun
      cases hrun
      exact took_pure r _ _

theorem took_summary? {key : UnitKey} {access : Access (Option UnitSummary)}
    (hrun : r.summary? o key = .ok access) : Took r (r.unitLock key) access := by
  unfold summary? at hrun
  unfold unitLock
  cases hfind : r.findUnit? key with
  | some i =>
    rw [hfind] at hrun
    exact took_withUnit hrun
  | none =>
    rw [hfind] at hrun
    cases hrun
    exact took_pure r _ _

theorem took_summaries {access : Access (List UnitSummary)} (hrun : r.summaries o = .ok access) :
    Took r ((r.units.indices fun _ => true).map .unit) access := by
  obtain ⟨found, hfound, hrun⟩ := bind_eq_ok_iff.1 hrun
  cases hrun
  exact (took_summariesAt (r.units.nodup_indices _) hfound).map _

theorem took_summariesOf {db : UInt32} {access : Access (List UnitSummary)} (hrun : r.summariesOf o db = .ok access) :
    Took r ((r.units.indices fun _ => true).map .unit) access := by
  obtain ⟨found, hfound, hrun⟩ := bind_eq_ok_iff.1 hrun
  cases hrun
  exact (took_summaries hfound).map _

end Region

namespace Operation

variable {op : Operation} {o : Owner} {r : Region} {access : Access Answer}

/-- The locks that an operation takes, in its order. -/
def locks (r : Region) : Operation → List LockPlace
  | .fold id _ => r.firstLock id
  | .readRecords id => r.firstLock id
  | .findChunk id number => if (r.find? (.new id number)).isSome then r.firstLock id else []
  | .recordCall key _ _ => r.unitLock key
  | .summary key => r.unitLock key
  | .summaries => (r.units.indices fun _ => true).map .unit
  | .summariesOf _ => (r.units.indices fun _ => true).map .unit
  | _ => []

/-- An operation takes its locks and gives them back. -/
theorem took (hrun : op.run o r = .ok access) : r.Took (op.locks r) access := by
  cases op with
  | fold id records =>
    obtain ⟨a, ha, rfl⟩ := map_eq_ok_iff.1 hrun
    exact (Region.took_fold ha).map _
  | insertChunk id number =>
    cases hrun
    exact Region.took_pure r _ _
  | reset scope =>
    obtain ⟨out, -, rfl⟩ := map_eq_ok_iff.1 hrun
    exact Region.took_pure r _ _
  | findChunk id number =>
    obtain ⟨a, ha, rfl⟩ := map_eq_ok_iff.1 hrun
    exact (Region.took_findChunk ha).map _
  | readRecords id =>
    obtain ⟨a, ha, rfl⟩ := map_eq_ok_iff.1 hrun
    exact (Region.took_readRecords ha).map _
  | dump =>
    cases hrun
    exact Region.took_pure r _ _
  | recordCall key elapsed isError =>
    obtain ⟨a, ha, rfl⟩ := map_eq_ok_iff.1 hrun
    exact (Region.took_recordCall ha).map _
  | summary key =>
    obtain ⟨a, ha, rfl⟩ := map_eq_ok_iff.1 hrun
    exact (Region.took_summary? ha).map _
  | summaries =>
    obtain ⟨a, ha, rfl⟩ := map_eq_ok_iff.1 hrun
    exact (Region.took_summaries ha).map _
  | summariesOf db =>
    obtain ⟨a, ha, rfl⟩ := map_eq_ok_iff.1 hrun
    exact (Region.took_summariesOf ha).map _
  | resetStats unit =>
    cases hrun
    exact Region.took_pure r _ _

/-- Nobody is found dead if all locks are free. -/
theorem retired_eq_nil (hfree : ∀ l, r.word l = 0) (hrun : op.run o r = .ok access) : access.retired = [] := by
  rw [(took hrun).retired, List.filter_eq_nil_iff]
  intro word hword
  obtain ⟨l, -, rfl⟩ := List.mem_map.1 hword
  simp [hfree l]

end Operation

end ProcProfile
