import Mathlib.Tactic
import ProcProfile.Proofs.Region.Failures

/-!
# Chunks and call statistics apart

A region has two tables behind one header.  Operations on chunks neither read nor change the table of call
statistics, and the other way round.  This holds of every region, sound or not, so it is said by equations: an
operation on chunks can be run on the region with the call statistics of any other region, and an operation on
call statistics on the region with any other chunks.

* `withUnits`: the chunks of one region with the call statistics of another;
* `fold_withUnits`, `reset_withUnits` and others: operations on chunks work on the left region alone;
* `recordCall_withUnits`, `resetStats_withUnits` and others: those on call statistics work on the right one;
* `StoreRequest.OnChunks`, `units_of_serve`, `eq_withUnits_of_serve`: so a request leaves the other table as it was.
-/

namespace ProcProfile

variable {α : Type}

/-- What an operation leaves behind, with its region changed. -/
def Access.mapRegion (f : Region → Region) (a : Access α) : Access α := ⟨f a.region, a.retired, a.answer⟩

@[simp] theorem Access.region_mapRegion (f : Region → Region) (a : Access α) :
    (a.mapRegion f).region = f a.region := rfl

@[simp] theorem Access.answer_mapRegion (f : Region → Region) (a : Access α) :
    (a.mapRegion f).answer = a.answer := rfl

namespace Region

/-- The chunks of a region with the call statistics of another. -/
def withUnits (r q : Region) : Region :=
  { r with units := q.units, header := { r.header with unitsUsed := q.header.unitsUsed } }

variable (r q : Region)

@[simp] theorem withUnits_self : r.withUnits r = r := rfl

@[simp] theorem chunks_withUnits : (r.withUnits q).chunks = r.chunks := rfl

@[simp] theorem units_withUnits : (r.withUnits q).units = q.units := rfl

@[simp] theorem withUnits_withUnits (q' : Region) : (r.withUnits q).withUnits q' = r.withUnits q' := rfl

/-! ### Operations on chunks -/

section Chunks

/-- An operation on chunks does to them what it does, whatever the call statistics are. -/
def WorksOnChunks {β : Type} (body : Region → Except Fault (Region × β)) : Prop :=
  ∀ r q, body (r.withUnits q) = Prod.map (·.withUnits q) id <$> body r

@[simp] theorem find?_withUnits (key : ChunkKey) : (r.withUnits q).find? key = r.find? key := rfl

@[simp] theorem page_withUnits (i : Nat) : (r.withUnits q).page i = r.page i := rfl

theorem writePage_withUnits (i : Nat) (records : List Record) :
    (r.withUnits q).writePage i records = (r.writePage i records).withUnits q := rfl

theorem remove_withUnits (i : Nat) : (r.withUnits q).remove i = (r.remove i).withUnits q := by
  unfold remove
  rw [chunks_withUnits]
  split_ifs <;> rfl

theorem removeAll_withUnits (slots : List Nat) :
    slots.foldl Region.remove (r.withUnits q) = (slots.foldl Region.remove r).withUnits q := by
  induction slots generalizing r with
  | nil => rfl
  | cons i slots ih => rw [List.foldl_cons, List.foldl_cons, remove_withUnits, ih]

theorem insert_withUnits (key : ChunkKey) :
    (r.withUnits q).insert key = ((r.insert key).1.withUnits q, (r.insert key).2) := by
  unfold insert
  rw [chunks_withUnits]
  cases r.chunks.lookup key with
  | found i => rfl
  | vacant place => cases place <;> rfl

theorem insertChunk_withUnits (id : Identity) (number : ChunkNumber) :
    (r.withUnits q).insertChunk id number =
      ((r.insertChunk id number).1.withUnits q, (r.insertChunk id number).2) := by
  unfold insertChunk
  dsimp only
  rw [insert_withUnits]
  obtain ⟨r', answer⟩ := r.insert (.new id number)
  cases answer <;> rfl

theorem createChunks_withUnits (pages : List (List Record)) (key : ChunkKey) (created : List Nat) :
    WorksOnChunks (createChunks pages key created) := by
  intro r q
  induction pages generalizing r key created with
  | nil => rfl
  | cons page pages ih =>
    rw [createChunks, createChunks, insert_withUnits]
    obtain ⟨r', answer⟩ := r.insert key
    cases answer with
    | error e =>
      dsimp only
      rw [removeAll_withUnits]
      rfl
    | ok i =>
      dsimp only
      rw [writePage_withUnits]
      cases key.next with
      | error f => rfl
      | ok next => exact ih next (i :: created) (r'.writePage i (fillPage page))

theorem mergedPages_withUnits (page : List Record) (pages : List (List Record)) (key : ChunkKey) (i : Nat) :
    (r.withUnits q).mergedPages page pages key i = r.mergedPages page pages key i := by
  induction pages generalizing page key i with
  | nil => rfl
  | cons page' pages ih =>
    rw [mergedPages, mergedPages, page_withUnits]
    refine congrArg (mergePage (r.page i) page >>= ·) (funext fun merged => ?_)
    refine congrArg (Stop.ofFault key.next >>= ·) (funext fun next => ?_)
    rw [find?_withUnits]
    cases r.find? next with
    | none => rfl
    | some j =>
      dsimp only
      rw [ih]

theorem writePages_withUnits (writes : List (Nat × List Record)) :
    (r.withUnits q).writePages writes = (r.writePages writes).withUnits q := by
  unfold writePages
  induction writes generalizing r with
  | nil => rfl
  | cons w writes ih => exact ih (r.writePage w.1 w.2)

theorem mergeInto_withUnits (records : List Record) (key : ChunkKey) (i : Nat) :
    WorksOnChunks (mergeInto records key i) := by
  intro r q
  unfold mergeInto
  cases pagesOf records with
  | nil => rfl
  | cons page pages =>
    dsimp only
    rw [mergedPages_withUnits]
    cases r.mergedPages page pages key i with
    | ok writes =>
      dsimp only
      rw [writePages_withUnits]
      rfl
    | error s => cases s <;> rfl

theorem withChunk_withUnits {body : Region → Except Fault (Region × α)} (hbody : WorksOnChunks body)
    (o : Owner) (i : Nat) :
    (r.withUnits q).withChunk o i body = Access.mapRegion (·.withUnits q) <$> r.withChunk o i body := by
  unfold withChunk
  rw [chunks_withUnits]
  cases o.take (r.chunks.get i).mutex with
  | error f => rfl
  | ok retired =>
    have hlocked : { r.withUnits q with chunks := r.chunks.setMutex i o.id } =
      ({ r with chunks := r.chunks.setMutex i o.id } : Region).withUnits q := rfl
    dsimp only [bind, Except.bind]
    rw [hlocked, hbody]
    cases body { r with chunks := r.chunks.setMutex i o.id } <;> rfl

theorem fold_withUnits (o : Owner) (id : Identity) (records : List Record) :
    (r.withUnits q).fold o id records = Access.mapRegion (·.withUnits q) <$> r.fold o id records := by
  unfold fold
  rw [find?_withUnits]
  cases r.find? (.first id) with
  | some i => exact r.withChunk_withUnits q (mergeInto_withUnits records (.first id) i) o i
  | none =>
    dsimp only
    rw [createChunks_withUnits]
    cases createChunks (pagesOf records) (.first id) [] r <;> rfl

theorem findChunk_withUnits (o : Owner) (id : Identity) (number : ChunkNumber) :
    (r.withUnits q).findChunk o id number =
      Access.mapRegion (·.withUnits q) <$> r.findChunk o id number := by
  unfold findChunk
  dsimp only
  rw [find?_withUnits, find?_withUnits]
  cases r.find? (.new id number) with
  | none => rfl
  | some i =>
    dsimp only
    cases if number = 1 then some i else r.find? (.first id) with
    | none => rfl
    | some first => exact r.withChunk_withUnits q (fun _ _ => rfl) o first

theorem chainRecords_withUnits (fuel : Nat) (key : ChunkKey) (i : Nat) :
    (r.withUnits q).chainRecords fuel key i = r.chainRecords fuel key i := by
  have hfind : ∀ key, (r.withUnits q).find? key = r.find? key := fun _ => rfl
  have hpage : ∀ key i, r.find? key = some i → (r.withUnits q).page i = r.page i := fun _ _ _ => rfl
  exact chainRecords_congr hfind hpage fuel key rfl

theorem readRecords_withUnits (o : Owner) (id : Identity) :
    (r.withUnits q).readRecords o id = Access.mapRegion (·.withUnits q) <$> r.readRecords o id := by
  unfold readRecords
  rw [find?_withUnits]
  generalize chunkNumberBound = fuel
  cases r.find? (.first id) with
  | none => rfl
  | some i =>
    refine r.withChunk_withUnits q (fun r q => ?_) o i
    rw [chainRecords_withUnits]
    cases r.chainRecords fuel (.first id) i <;> rfl

theorem removeChain_withUnits (fuel : Nat) (key : ChunkKey) (removed : Nat) :
    WorksOnChunks (removeChain fuel key removed) := by
  intro r q
  induction fuel generalizing r key removed with
  | zero => rfl
  | succ fuel ih =>
    rw [removeChain, removeChain, find?_withUnits]
    cases r.find? key with
    | none => rfl
    | some i =>
      dsimp only
      rw [remove_withUnits]
      cases key.next with
      | error f => rfl
      | ok next => exact ih next (removed + 1) (r.remove i)

theorem reset_withUnits (scope : ResetScope) :
    (r.withUnits q).reset scope = Prod.map (·.withUnits q) id <$> r.reset scope := by
  cases scope with
  | all => rfl
  | incarnation id => exact removeChain_withUnits chunkNumberBound (.first id) 0 r q
  | unit key =>
    unfold reset
    dsimp only
    rw [chunks_withUnits, removeAll_withUnits]
    rfl

end Chunks

/-! ### Operations on call statistics -/

section Units

@[simp] theorem findUnit?_withUnits (key : UnitKey) : (r.withUnits q).findUnit? key = q.findUnit? key := rfl

@[simp] theorem stats_withUnits (i : Nat) : (r.withUnits q).stats i = q.stats i := rfl

theorem insertUnit_withUnits (key : UnitKey) :
    (r.withUnits q).insertUnit key = (r.withUnits (q.insertUnit key).1, (q.insertUnit key).2) := by
  unfold insertUnit
  rw [units_withUnits]
  cases q.units.lookup key with
  | found i => rfl
  | vacant place => cases place <;> rfl

theorem recordCall_withUnits (o : Owner) (key : UnitKey) (elapsed : Counter) (isError : Bool) :
    (r.withUnits q).recordCall o key elapsed isError =
      Access.mapRegion r.withUnits <$> q.recordCall o key elapsed isError := by
  unfold recordCall
  rw [findUnit?_withUnits]
  cases q.findUnit? key with
  | some i =>
    dsimp only [withUnit, bind, Except.bind, units_withUnits]
    cases o.take (q.units.get i).mutex with
    | error f => rfl
    | ok retired =>
      have hstats : ({ r.withUnits q with units := q.units.setMutex i o.id } : Region).stats i =
        ({ q with units := q.units.setMutex i o.id } : Region).stats i := rfl
      dsimp only
      rw [hstats]
      cases (({ q with units := q.units.setMutex i o.id } : Region).stats i).record elapsed isError <;> rfl
  | none =>
    dsimp only
    rw [insertUnit_withUnits]
    obtain ⟨q', answer⟩ := q.insertUnit key
    cases answer with
    | error e => rfl
    | ok i =>
      dsimp only
      cases CallStats.zero.record elapsed isError <;> rfl

theorem resetStats_withUnits (unit : Option UnitKey) :
    (r.withUnits q).resetStats unit = (r.withUnits (q.resetStats unit).1, (q.resetStats unit).2) := by
  cases unit with
  | none => rfl
  | some key =>
    dsimp only [resetStats, findUnit?_withUnits]
    cases q.findUnit? key with
    | none => rfl
    | some i =>
      dsimp only
      unfold removeUnit
      rw [units_withUnits]
      split_ifs <;> rfl

theorem withUnits_relockUnit (i : Nat) (word : UInt32) :
    (r.withUnits q).relockUnit i word = r.withUnits (q.relockUnit i word) := rfl

theorem summary?_withUnits (o : Owner) (key : UnitKey) :
    (r.withUnits q).summary? o key = Access.mapRegion r.withUnits <$> q.summary? o key := by
  rw [summary?_eq, summary?_eq, findUnit?_withUnits]
  cases q.findUnit? key with
  | none => rfl
  | some i =>
    dsimp only [units_withUnits]
    cases o.take (q.units.get i).mutex <;> rfl

theorem summariesAt_withUnits (o : Owner) (slots : List Nat) :
    summariesAt o slots (r.withUnits q) = Access.mapRegion r.withUnits <$> summariesAt o slots q := by
  induction slots generalizing q with
  | nil => rfl
  | cons i rest ih =>
    rw [summariesAt_cons, summariesAt_cons, withUnits_relockUnit, withUnits_relockUnit, ih, units_withUnits]
    cases o.take (q.units.get i).mutex with
    | error f => rfl
    | ok retired => cases summariesAt o rest ((q.relockUnit i o.id).relockUnit i 0) <;> rfl

theorem summaries_withUnits (o : Owner) :
    (r.withUnits q).summaries o = Access.mapRegion r.withUnits <$> q.summaries o := by
  unfold summaries
  rw [summariesAt_withUnits, units_withUnits]
  cases summariesAt o (q.units.indices fun _ => true) q <;> rfl

end Units

end Region

/-! ### Requests -/

/-- A request about chunks. -/
def StoreRequest.OnChunks : StoreRequest → Prop
  | .fold .. | .insertChunk .. | .reset .. | .findChunk .. | .readRecords .. => True
  | _ => False

namespace Region

variable {r r' : Region} {request : StoreRequest}

theorem serve_withUnits_left (h : request.OnChunks) (r q : Region) :
    (r.withUnits q).serve request = (·.withUnits q) <$> r.serve request := by
  cases request with
  | fold o id records =>
    rw [serve, serve, fold_withUnits]
    cases r.fold o id records <;> rfl
  | insertChunk id number =>
    rw [serve, serve, insertChunk_withUnits]
    rfl
  | reset scope =>
    rw [serve, serve, reset_withUnits]
    cases r.reset scope <;> rfl
  | findChunk o id number =>
    rw [serve, serve, findChunk_withUnits]
    cases r.findChunk o id number <;> rfl
  | readRecords o id =>
    rw [serve, serve, readRecords_withUnits]
    cases r.readRecords o id <;> rfl
  | recordCall | resetStats | summary | summaries => exact h.elim

theorem serve_withUnits_right (h : ¬ request.OnChunks) (r q : Region) :
    (r.withUnits q).serve request = r.withUnits <$> q.serve request := by
  cases request with
  | recordCall o key elapsed isError =>
    rw [serve, serve, recordCall_withUnits]
    cases q.recordCall o key elapsed isError <;> rfl
  | resetStats unit =>
    rw [serve, serve, resetStats_withUnits]
    rfl
  | summary o key =>
    rw [serve, serve, summary?_withUnits]
    cases q.summary? o key <;> rfl
  | summaries o =>
    rw [serve, serve, summaries_withUnits]
    cases q.summaries o <;> rfl
  | fold | insertChunk | reset | findChunk | readRecords => exact absurd trivial h

/-- A request about chunks leaves the call statistics as they were. -/
theorem units_of_serve (h : request.OnChunks) (hrun : r.serve request = .ok r') : r'.withUnits r = r' := by
  have hself := serve_withUnits_left h r r
  rw [withUnits_self, hrun] at hself
  exact (Except.ok.inj hself).symm

/-- A request about call statistics leaves all else as it was. -/
theorem eq_withUnits_of_serve (h : ¬ request.OnChunks) (hrun : r.serve request = .ok r') :
    r.withUnits r' = r' := by
  have hself := serve_withUnits_right h r r
  rw [withUnits_self, hrun] at hself
  exact (Except.ok.inj hself).symm

end Region

end ProcProfile
