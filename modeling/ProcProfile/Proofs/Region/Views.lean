import Mathlib.Tactic
import ProcProfile.Proofs.Region.Dump
import ProcProfile.Proofs.Region.Statistics

/-!
# What can be read from a region

Slots, marks of removed entries and lock words do not show from outside.  What shows is the dump, the
numbers of used and free slots, the chunks and profiles of the incarnations, and the call statistics.

* `SameView`: two regions that nobody can tell apart;
* `Same.sameView`: regions with the same chunks in the same slots are such, if nothing fills their keys;
* `Tidy`: a settled region without filled keys, which reading leaves tidy.
-/

namespace ProcProfile

namespace Region

variable {r r' : Region} {α : Type}

/-- Two regions of which everything that can be read is the same, for every owner that reads. -/
structure SameView (r r' : Region) : Prop where
  dump : r'.dump = r.dump
  info : ∀ shared, r'.info shared = r.info shared
  findChunk : ∀ o id number,
    Access.answer <$> r'.findChunk o id number = Access.answer <$> r.findChunk o id number
  readRecords : ∀ o id, Access.answer <$> r'.readRecords o id = Access.answer <$> r.readRecords o id
  summary : ∀ o key, Access.answer <$> r'.summary? o key = Access.answer <$> r.summary? o key
  summaries : ∀ o, Access.answer <$> r'.summaries o = Access.answer <$> r.summaries o
  summariesOf : ∀ o db, Access.answer <$> r'.summariesOf o db = Access.answer <$> r.summariesOf o db

/-- A settled region in which nothing fills the keys of chunks. -/
structure Tidy (r : Region) : Prop where
  settled : r.Settled
  filler : ∀ i key, r.chunks.Holds i key → key.filler = 0

theorem tidy_create (capacity unitCapacity : UInt64) : (create capacity unitCapacity).Tidy where
  settled := settled_create capacity unitCapacity
  filler i key hi := absurd hi (Table.not_holds_new capacity.toNat i key)

theorem Tidy.of_rewritten (h : r.Tidy) (hr : Rewritten r r') : r'.Tidy :=
  ⟨hr.settled h.settled, fun i key hi => h.filler i key ((hr.holds i key).1 hi)⟩

theorem Tidy.of_same (h : r.Tidy) (hs : Same r r') : r'.Tidy :=
  ⟨hs.settled, fun i key hi => h.filler i key ((hs.holds i key).1 hi)⟩

theorem Tidy.of_chunks (h : r.Tidy) (hs : r'.Settled) (hchunks : r'.chunks = r.chunks) : r'.Tidy :=
  ⟨hs, fun i key hi => h.filler i key (hchunks ▸ hi)⟩

/-! ### Reading chunks -/

theorem find?_congr (h : r.Sound) (h' : r'.Sound) {key : ChunkKey}
    (hholds : ∀ i, r'.chunks.Holds i key ↔ r.chunks.Holds i key) : r'.find? key = r.find? key := by
  refine Option.ext fun i => ?_
  exact (Table.find?_eq_some_iff h'.chunks.sound).trans
    ((hholds i).trans (Table.find?_eq_some_iff h.chunks.sound).symm)

theorem holds_of_find? (h : r.Sound) {key : ChunkKey} {i : Nat} (hi : r.find? key = some i) :
    r.chunks.Holds i key := (Table.find?_eq_some_iff h.chunks.sound).1 hi

theorem Same.refl (h : r.Settled) : Same r r := (Rewritten.refl h.sound).same h fun _ => rfl

/-- A lock that is taken and given back does not show. -/
theorem same_relock (h : r.Settled) {i : Nat} (hi : r.chunks.isUsed i = true) (word : UInt32) :
    Same r ((r.relock i word).relock i 0) :=
  ((Rewritten.refl (h.sound.relock i word)).unlock h hi).same h fun j => by rw [page_relock, page_relock]

/-- An operation that gives this answer and leaves the same chunks in the same slots. -/
structure Reads (r : Region) (x : Except Fault (Access α)) (answer : Except Fault α) : Prop where
  answer_eq : Access.answer <$> x = answer
  same : ∀ access, x = .ok access → Same r access.region

theorem reads_pure (h : r.Settled) (answer : α) : Reads r (.ok (.pure r answer)) (.ok answer) :=
  ⟨rfl, fun access hok => by cases hok; exact .refl h⟩

/-- What is read under the lock of a chunk. -/
theorem reads_withChunk (h : r.Settled) {i : Nat} (hi : r.chunks.isUsed i = true) (o : Owner)
    (f : Region → Except Fault α) :
    Reads r (r.withChunk o i fun r => do
      let a ← f r
      return (r, a)) (f (r.relock i o.id)) := by
  rw [withChunk_eq h hi]
  cases f (r.relock i o.id) with
  | error fault => exact ⟨rfl, fun access hok => by cases hok⟩
  | ok a => exact ⟨rfl, fun access hok => by cases hok; exact same_relock h hi o.id⟩

theorem chainRecords_congr (hfind : ∀ key, r'.find? key = r.find? key)
    (hpage : ∀ key i, r.find? key = some i → r'.page i = r.page i) (fuel : Nat) (key : ChunkKey) {i : Nat}
    (hi : r'.page i = r.page i) : r'.chainRecords fuel key i = r.chainRecords fuel key i := by
  induction fuel generalizing key i with
  | zero => rfl
  | succ fuel ih =>
    rw [chainRecords, chainRecords, hi]
    refine congrArg (key.next >>= ·) (funext fun next => ?_)
    rw [hfind next]
    cases hj : r.find? next with
    | none => rfl
    | some j =>
      dsimp only
      rw [ih next (hpage next j hj)]

/-- The chunk that a search for it answers. -/
def foundChunk (r : Region) (id : Identity) (number : ChunkNumber) : Option Chunk :=
  (r.find? (.new id number)).bind fun i =>
    (if number = 1 then some i else r.find? (.first id)).map fun _ => ⟨.new id number, r.page i⟩

theorem reads_findChunk (h : r.Settled) (o : Owner) (id : Identity) (number : ChunkNumber) :
    Reads r (r.findChunk o id number) (.ok (r.foundChunk id number)) := by
  unfold findChunk foundChunk
  dsimp only
  cases hi : r.find? (.new id number) with
  | none => exact reads_pure h none
  | some i =>
    rw [Option.bind_some]
    dsimp only
    cases hfirst : if number = 1 then some i else r.find? (.first id) with
    | none => exact reads_pure h none
    | some first =>
      have hused : r.chunks.isUsed first = true := by
        split_ifs at hfirst
        · cases hfirst
          exact (holds_of_find? h.sound hi).1
        · exact (holds_of_find? h.sound hfirst).1
      have hreads := reads_withChunk h hused o fun r => .ok (some (⟨.new id number, r.page i⟩ : Chunk))
      rwa [page_relock] at hreads

/-- The records that reading a profile answers. -/
def storedRecords (r : Region) (id : Identity) : Except Fault (Option (List Record)) :=
  match r.find? (.first id) with
  | none => .ok none
  | some i => some <$> r.chainRecords chunkNumberBound (.first id) i

theorem reads_readRecords (h : r.Settled) (o : Owner) (id : Identity) :
    Reads r (r.readRecords o id) (r.storedRecords id) := by
  unfold readRecords storedRecords
  generalize chunkNumberBound = fuel
  cases hi : r.find? (.first id) with
  | none => exact reads_pure h none
  | some i =>
    have hlocked := chainRecords_congr
      (fun key => find?_congr h.sound (h.sound.relock i o.id) fun j => r.holds_relock i o.id j key)
      (fun _ j _ => r.page_relock i o.id j) fuel (.first id) (r.page_relock i o.id i)
    have hreads := reads_withChunk h (holds_of_find? h.sound hi).1 o fun r =>
      some <$> r.chainRecords fuel (.first id) i
    rw [hlocked] at hreads
    simpa only [bind_map_left] using hreads

theorem Same.find?_eq (hs : Same r r') (h : r.Sound) (key : ChunkKey) : r'.find? key = r.find? key :=
  find?_congr h hs.settled.sound fun i => hs.holds i key

theorem Same.page_eq (hs : Same r r') (h : r.Sound) {key : ChunkKey} {i : Nat}
    (hi : r.find? key = some i) : r'.page i = r.page i := hs.page i key (holds_of_find? h hi)

theorem Same.foundChunk_eq (hs : Same r r') (h : r.Sound) (id : Identity) (number : ChunkNumber) :
    r'.foundChunk id number = r.foundChunk id number := by
  unfold foundChunk
  rw [hs.find?_eq h, hs.find?_eq h]
  cases hi : r.find? (.new id number) with
  | none => rfl
  | some i => rw [Option.bind_some, Option.bind_some, hs.page_eq h hi]

theorem Same.storedRecords_eq (hs : Same r r') (h : r.Sound) (id : Identity) :
    r'.storedRecords id = r.storedRecords id := by
  unfold storedRecords
  rw [hs.find?_eq h]
  cases hi : r.find? (.first id) with
  | none => rfl
  | some i =>
    dsimp only
    rw [chainRecords_congr (hs.find?_eq h) (fun _ _ hj => hs.page_eq h hj) _ _ (hs.page_eq h hi)]

/-! ### Reading call statistics -/

/-- A region with another word in the lock of a unit slot. -/
def relockUnit (r : Region) (i : Nat) (word : UInt32) : Region :=
  { r with units := r.units.setMutex i word }

/-- What is read under the lock of call statistics. -/
theorem withUnit_read (r : Region) (o : Owner) (i : Nat) (f : Table UnitKey CallStats → α) :
    r.withUnit o i (fun r => .ok (r, f r.units)) =
      (fun retired => ⟨(r.relockUnit i o.id).relockUnit i 0, retired, f (r.units.setMutex i o.id)⟩) <$>
        o.take (r.units.get i).mutex := by
  unfold withUnit
  cases o.take (r.units.get i).mutex <;> rfl

theorem Settled.relockUnit (h : r.Settled) (i : Nat) (word : UInt32) :
    ((r.relockUnit i word).relockUnit i 0).Settled := by
  refine h.of_units rfl rfl ((h.sound.units.setMutex i word).setMutex i 0) fun j hj => ?_
  change (((r.units.setMutex i word).setMutex i 0).get j).mutex = 0
  have hused : r.units.isUsed j = true :=
    ((r.units.holds_setMutex i word j _).1 ((Table.holds_setMutex _ i 0 j _).1 ⟨hj, rfl⟩)).1
  rw [Table.get_setMutex]
  split_ifs with hij
  · rfl
  · rw [Table.get_setMutex, if_neg (by simpa using hij)]
    exact h.unit_unlocked j hused

theorem summary?_eq (r : Region) (o : Owner) (key : UnitKey) :
    r.summary? o key =
      match r.findUnit? key with
      | none => .ok (.pure r none)
      | some i =>
        (fun retired => ⟨(r.relockUnit i o.id).relockUnit i 0, retired,
          some (((r.units.setMutex i o.id).get i).value.summary key)⟩) <$>
          o.take (r.units.get i).mutex := by
  unfold summary?
  cases r.findUnit? key with
  | none => rfl
  | some i => exact r.withUnit_read o i fun units => some ((units.get i).value.summary key)

theorem summariesAt_cons (o : Owner) (i : Nat) (rest : List Nat) (r : Region) :
    summariesAt o (i :: rest) r = (do
      let retired ← o.take (r.units.get i).mutex
      let found ← summariesAt o rest ((r.relockUnit i o.id).relockUnit i 0)
      let slot := (r.units.setMutex i o.id).get i
      return ⟨found.region, retired ++ found.retired,
        (slot.key?.map fun key => slot.value.summary key).toList ++ found.answer⟩) := by
  have hread := r.withUnit_read o i fun units =>
    (units.get i).key?.map fun key => (units.get i).value.summary key
  rw [summariesAt]
  refine (congrArg (· >>= _) hread).trans ?_
  cases o.take (r.units.get i).mutex with
  | error f => rfl
  | ok retired =>
    simp only [Access.andThen, bind, Except.bind, Functor.map, Except.map]
    cases summariesAt o rest ((r.relockUnit i o.id).relockUnit i 0) <;> rfl

/-- Reading call statistics leaves the chunks as they were and all locks free. -/
theorem Settled.summary? (h : r.Settled) {o : Owner} {key : UnitKey} {access : Access (Option UnitSummary)}
    (hrun : r.summary? o key = .ok access) : access.region.Settled ∧ access.region.chunks = r.chunks := by
  rw [summary?_eq] at hrun
  cases hfind : r.findUnit? key with
  | none =>
    rw [hfind] at hrun
    cases hrun
    exact ⟨h, rfl⟩
  | some i =>
    rw [hfind] at hrun
    obtain ⟨retired, -, rfl⟩ := map_eq_ok_iff.1 hrun
    exact ⟨h.relockUnit i o.id, rfl⟩

theorem Settled.summariesAt (h : r.Settled) {o : Owner} {slots : List Nat}
    {access : Access (List UnitSummary)} (hrun : summariesAt o slots r = .ok access) :
    access.region.Settled ∧ access.region.chunks = r.chunks := by
  induction slots generalizing r access with
  | nil =>
    cases hrun
    exact ⟨h, rfl⟩
  | cons i rest ih =>
    rw [summariesAt_cons] at hrun
    obtain ⟨retired, -, hrun⟩ := bind_eq_ok_iff.1 hrun
    obtain ⟨found, hfound, hrun⟩ := bind_eq_ok_iff.1 hrun
    obtain ⟨hsettled, hchunks⟩ := ih (h.relockUnit i o.id) hfound
    cases hrun
    exact ⟨hsettled, hchunks⟩

theorem summary?_congr (hu : r'.units = r.units) (o : Owner) (key : UnitKey) :
    Access.answer <$> r'.summary? o key = Access.answer <$> r.summary? o key := by
  rw [summary?_eq, summary?_eq, findUnit?, findUnit?, hu]
  cases r.units.find? key with
  | none => rfl
  | some i => rw [Functor.map_map, Functor.map_map]

/-- What is made of equal answers is equal. -/
theorem map_answer_congr {β : Type} {x y : Except Fault (Access α)}
    (h : Access.answer <$> x = Access.answer <$> y) (g : α → β) :
    (fun access => g access.answer) <$> x = (fun access => g access.answer) <$> y := by
  have hg := congrArg (g <$> ·) h
  rwa [Functor.map_map, Functor.map_map] at hg

theorem summariesAt_congr (hu : r'.units = r.units) (o : Owner) (slots : List Nat) :
    Access.answer <$> summariesAt o slots r' = Access.answer <$> summariesAt o slots r := by
  induction slots generalizing r r' with
  | nil => rfl
  | cons i rest ih =>
    have hunits : ((r'.relockUnit i o.id).relockUnit i 0).units =
        ((r.relockUnit i o.id).relockUnit i 0).units := by simp only [relockUnit, hu]
    simp only [summariesAt_cons, hu, map_bind, bind_pure_comp, Functor.map_map]
    exact congrArg (o.take (r.units.get i).mutex >>= ·)
      (funext fun _ => map_answer_congr (ih hunits) _)

theorem summaries_congr (hu : r'.units = r.units) (o : Owner) :
    Access.answer <$> r'.summaries o = Access.answer <$> r.summaries o := by
  unfold summaries
  simp only [hu, bind_pure_comp, Functor.map_map, Access.map]
  exact map_answer_congr (summariesAt_congr hu o _) fun list => list.mergeSort UnitSummary.before

theorem summariesOf_congr (hu : r'.units = r.units) (o : Owner) (db : UInt32) :
    Access.answer <$> r'.summariesOf o db = Access.answer <$> r.summariesOf o db := by
  unfold summariesOf
  simp only [bind_pure_comp, Functor.map_map, Access.map]
  exact map_answer_congr (summaries_congr hu o) _

/-! ### Regions that look the same -/

/-- The same chunks in the same slots look the same. -/
theorem Same.sameView (hs : Same r r') (h : r.Tidy) : SameView r r' where
  dump := by
    refine dump_congr h.settled.sound hs.settled.sound (fun key page hpage => ?_)
      (hs.chunk?_eq h.settled.sound)
    obtain ⟨i, hi, -⟩ := (chunk?_eq_some_iff h.settled.sound).1 hpage
    exact h.filler i key hi
  info shared := by
    unfold info layout capacity unitCapacity
    rw [hs.header, hs.size, hs.units]
  findChunk o id number := by
    rw [(reads_findChunk hs.settled o id number).answer_eq,
      (reads_findChunk h.settled o id number).answer_eq, hs.foundChunk_eq h.settled.sound]
  readRecords o id := by
    rw [(reads_readRecords hs.settled o id).answer_eq, (reads_readRecords h.settled o id).answer_eq,
      hs.storedRecords_eq h.settled.sound]
  summary := summary?_congr hs.units
  summaries := summaries_congr hs.units
  summariesOf := summariesOf_congr hs.units

end Region

end ProcProfile
