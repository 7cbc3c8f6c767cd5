import Mathlib.Tactic
import ProcProfile.Proofs.Region.Failures
import ProcProfile.Proofs.Region.Moves

/-!
# Room for a first call

The first call of an incarnation is stored if there are as many free chunks as it needs, wherever the removed
chunks of other incarnations left their marks.  The number of free chunks is the one that the region tells.

Chunk numbers end at 32767, and after every created chunk the number of the next one is asked for.  So a call
that needs 32767 chunks or more, in a region with as many free ones, gives no answer.

* `freeChunks_eq`: the free chunks that a region tells of are slots without an entry;
* `serve_layout`, `serveAll_layout`: no request changes the number of slots;
* `FirstFold`, `Tidy.firstFold`: what the chunks that a call needs, and those that are free, decide;
* `first_fold_by_room`: the same of the first call of an incarnation, after any requests to a new store;
* `first_fold_past_last_number`: a call that is not stored although there is room.
-/

namespace ProcProfile

namespace Region

variable {r r' : Region} {id : Identity}

/-! ### Free chunks -/

/-- The header counts the used slots, so that what it leaves is free. -/
theorem freeChunks_eq (h : r.Sound) (shared : Bool) : (r.info shared).freeChunks = r.free := by
  change r.chunks.size - r.header.used.toNat = r.free
  rw [h.chunks.count, free]

theorem freeChunks_create (capacity unitCapacity : UInt64) (shared : Bool) :
    ((create capacity unitCapacity).info shared).freeChunks = capacity.toNat := by
  rw [freeChunks_eq (sound_create capacity unitCapacity), free_create]

/-- An incarnation of which a dump shows no chunk has none. -/
theorem chunk?_nth_of_dump (h : r.Sound) (hnone : ∀ c ∈ r.dump, c.key.identity ≠ id) (m : Nat) :
    r.chunk? (.nth id m) = none := by
  rw [Option.eq_none_iff_forall_ne_some]
  intro page hpage
  exact hnone ⟨.nth id m, page⟩ ((mem_dump h).2 hpage) rfl

theorem serve_layout {request : StoreRequest} (hrun : r.serve request = .ok r') : r'.layout = r.layout := by
  have hmoves : Moves (fun _ => True) r r' := by
    cases request with
    | fold o id records =>
      obtain ⟨access, hfold, rfl⟩ := map_eq_ok_iff.1 hrun
      exact fold_moves ⟨fun _ _ => trivial, fun _ _ _ _ _ _ => trivial⟩ (fun _ => trivial) hfold
    | insertChunk id number =>
      cases hrun
      exact insertChunk_moves r id number
    | reset scope =>
      obtain ⟨out, hreset, rfl⟩ := map_eq_ok_iff.1 hrun
      exact reset_moves hreset
    | recordCall o key elapsed isError =>
      obtain ⟨access, hrecord, rfl⟩ := map_eq_ok_iff.1 hrun
      exact recordCall_moves hrecord
    | resetStats unit =>
      cases hrun
      exact resetStats_moves r unit
    | findChunk o id number =>
      obtain ⟨access, hfind, rfl⟩ := map_eq_ok_iff.1 hrun
      exact findChunk_moves hfind
    | readRecords o id =>
      obtain ⟨access, hread, rfl⟩ := map_eq_ok_iff.1 hrun
      exact readRecords_moves hread
    | summary o key =>
      obtain ⟨access, hread, rfl⟩ := map_eq_ok_iff.1 hrun
      exact summary?_moves hread
    | summaries o =>
      obtain ⟨access, hread, rfl⟩ := map_eq_ok_iff.1 hrun
      exact summaries_moves hread
  exact hmoves.frame.layout

theorem serveAll_layout {requests : List StoreRequest} (hrun : serveAll requests r = .ok r') :
    r'.layout = r.layout := by
  induction requests generalizing r with
  | nil =>
    cases hrun
    rfl
  | cons request requests ih =>
    unfold serveAll at hrun
    rw [List.foldlM_cons] at hrun
    obtain ⟨r₁, hserve, hrun⟩ := bind_eq_ok_iff.1 hrun
    rw [ih hrun, serve_layout hserve]

/-! ### The first call of an incarnation -/

/-- What a first call ends in that needs some chunks, while some are free. -/
inductive FirstFold (r : Region) (needed free : Nat) : Except Fault (Access (Except StoreError Unit)) → Prop
  /-- Every chunk found a slot. -/
  | stored {access : Access (Except StoreError Unit)} (hroom : needed ≤ free) (hnumber : needed + 1 < 2 ^ 15)
      (hanswer : access.answer = .ok ())
      (hfree : ∀ shared, (access.region.info shared).freeChunks + needed = free) :
      FirstFold r needed free (.ok access)
  /-- There was no slot for one of them, and nothing is left of those before it. -/
  | refused {access : Access (Except StoreError Unit)} (hfull : free < needed) (hnumber : free + 1 < 2 ^ 15)
      (hanswer : access.answer = .error (.exhausted r.capacity)) (hsame : SameView r access.region) :
      FirstFold r needed free (.ok access)
  /-- The chunk with the last number found a slot. -/
  | faulted (hneeded : 2 ^ 15 ≤ needed + 1) (hfree : 2 ^ 15 ≤ free + 1) :
      FirstFold r needed free (.error .addOverflow)

/-- A fold into an incarnation without chunks goes by the chunks that it needs and those that are free. -/
theorem Tidy.firstFold (h : r.Tidy) (hnone : ∀ c ∈ r.dump, c.key.identity ≠ id) (o : Owner)
    (records : List Record) (shared : Bool) :
    FirstFold r (chunksNeeded records.length) (r.info shared).freeChunks (r.fold o id records) := by
  have hsound := h.settled.sound
  rw [freeChunks_eq hsound]
  rcases fold_absent h.settled (fun m _ _ => chunk?_nth_of_dump hsound hnone m) o records with
    ⟨hrun, hneeded, hfree⟩ | ⟨q, hrun, hsame, hfull, hnumber⟩ | ⟨q, created, hrun, hadd, -, hfree, hnumber⟩
  all_goals rw [hrun]
  · exact .faulted (by omega) (by omega)
  · exact .refused hfull (by omega) rfl (hsame.sameView h)
  · refine .stored (by omega) (by omega) rfl fun shared => ?_
    rw [← hfree]
    congr 1
    exact freeChunks_eq hadd.settled.sound shared

/-- Where the chunk with the last number finds a slot, a first call gives no answer. -/
theorem Tidy.fold_past_last (h : r.Tidy) (hnone : ∀ c ∈ r.dump, c.key.identity ≠ id) (o : Owner)
    {records : List Record} (hneeded : 2 ^ 15 ≤ chunksNeeded records.length + 1)
    (hfree : 2 ^ 15 ≤ (r.info false).freeChunks + 1) : r.fold o id records = .error .addOverflow := by
  have hfirst := h.firstFold hnone o records false
  generalize r.fold o id records = outcome at hfirst
  cases hfirst with
  | stored _ hnumber => omega
  | refused _ hnumber => omega
  | faulted => rfl

theorem dump_create (capacity unitCapacity : UInt64) : (create capacity unitCapacity).dump = [] := by
  rw [List.eq_nil_iff_forall_not_mem]
  intro c hc
  have hchunk := (mem_dump (sound_create capacity unitCapacity)).1 hc
  rw [chunk?_create] at hchunk
  cases hchunk

/-- **A first call is stored if there is room.**  After any requests to a new store, let an incarnation have no
chunks.  Unless its first call needs 32767 chunks or more and as many are free, the fold is answered: it succeeds
exactly if no more chunks are needed than are free, which takes as many of the free ones, and otherwise it is
refused for want of room, and nothing that can be read changes.  In the case left out it gives no answer. -/
theorem first_fold_by_room (capacity unitCapacity : UInt64) {requests : List StoreRequest}
    (hrun : serveAll requests (create capacity unitCapacity) = .ok r)
    (hnone : ∀ c ∈ r.dump, c.key.identity ≠ id) (o : Owner) (records : List Record) (shared : Bool) :
    let needed := chunksNeeded records.length
    let free := (r.info shared).freeChunks
    (needed + 1 < 2 ^ 15 ∨ free + 1 < 2 ^ 15 → ∃ access, r.fold o id records = .ok access ∧
      (access.answer = .ok () ↔ needed ≤ free) ∧
      (access.answer = .error (.exhausted capacity.toNat) ↔ free < needed) ∧
      (needed ≤ free → (access.region.info shared).freeChunks + needed = free) ∧
      (free < needed → SameView r access.region)) ∧
    (2 ^ 15 ≤ needed + 1 → 2 ^ 15 ≤ free + 1 → r.fold o id records = .error .addOverflow) := by
  intro needed free
  have htidy := (tidy_create capacity unitCapacity).serveAll hrun
  have hcapacity : r.capacity = capacity.toNat := congrArg Layout.capacity (serveAll_layout hrun)
  have hfirst : FirstFold r needed free (r.fold o id records) := htidy.firstFold hnone o records shared
  rw [← hcapacity]
  generalize r.fold o id records = outcome at hfirst
  cases hfirst with
  | @stored access hroom hnumber hanswer hfree =>
    constructor
    · intro _
      refine ⟨access, rfl, ?_, ?_, fun _ => hfree shared, fun hfull => absurd hfull (not_lt.2 hroom)⟩
      · simp [hanswer, hroom]
      · simp [hanswer, hroom]
    · intro hneeded
      omega
  | @refused access hfull hnumber hanswer hsame =>
    constructor
    · intro _
      refine ⟨access, rfl, ?_, ?_, fun hroom => absurd hfull (not_lt.2 hroom), fun _ => hsame⟩
      · simp [hanswer, hfull]
      · simp [hanswer, hfull]
    · intro _ hfree
      omega
  | faulted hneeded hfree =>
    constructor
    · intro hfits
      omega
    · intro _ _
      rfl

/-- Two incarnations fill a store of three chunks; one of them is removed, and the other one is called again. -/
def crowdingRequests : List StoreRequest :=
  [.fold .local ⟨1, 1, 0, 0⟩ [.ofLine 3], .fold .local ⟨2, 1, 0, 0⟩ (List.replicate 31 (.ofLine 4)),
    .reset (.incarnation ⟨2, 1, 0, 0⟩), .fold .local ⟨1, 1, 0, 0⟩ [.ofLine 3]]

theorem first_fold_by_room_crowdingRequests :
    ∃ r, serveAll crowdingRequests (create 3 1) = .ok r ∧ (∀ c ∈ r.dump, c.key.identity ≠ ⟨3, 1, 0, 0⟩) ∧
      (r.info false).freeChunks = 2 ∧
      (∃ access, r.fold .local ⟨3, 1, 0, 0⟩ (List.replicate 60 (.ofLine 5)) = .ok access ∧
        access.answer = .ok () ∧ (access.region.info false).freeChunks = 0) ∧
      ∃ access, r.fold .local ⟨3, 1, 0, 0⟩ (List.replicate 61 (.ofLine 5)) = .ok access ∧
        access.answer = .error (.exhausted 3) ∧ SameView r access.region := by
  obtain ⟨r, hrun, hread⟩ := map_eq_ok_iff.1 (by decide +kernel :
    (fun r => (r.dump.map fun c => c.key.identity, (r.info false).freeChunks)) <$>
      serveAll crowdingRequests (create 3 1) = .ok ([⟨1, 1, 0, 0⟩], 2))
  obtain ⟨hids, hfree⟩ := Prod.mk.inj hread
  have hnone : ∀ c ∈ r.dump, c.key.identity ≠ ⟨3, 1, 0, 0⟩ := by
    intro c hc
    have hmem : c.key.identity ∈ [⟨1, 1, 0, 0⟩] := hids ▸ List.mem_map_of_mem hc
    rw [List.mem_singleton.1 hmem]
    decide
  have hfold := fun records => (first_fold_by_room 3 1 hrun hnone .local records false).1
  simp only [hfree] at hfold
  have hfits := hfold (List.replicate 60 (.ofLine 5)) (by decide)
  have hlarge := hfold (List.replicate 61 (.ofLine 5)) (by decide)
  obtain ⟨access, hok, hanswer, -, hleft, -⟩ := hfits
  obtain ⟨access', hok', -, hanswer', -, hsame'⟩ := hlarge
  refine ⟨r, hrun, hnone, hfree, ⟨access, hok, hanswer.2 (by decide), ?_⟩,
    access', hok', hanswer'.2 (by decide), hsame' (by decide)⟩
  have hleft := hleft (by decide)
  have hneeded : chunksNeeded (List.replicate 60 (Record.ofLine 5)).length = 2 := by decide
  omega

/-- A call of 982981 statements needs the 32767 chunks that are free, and is not stored. -/
theorem first_fold_past_last_number :
    chunksNeeded (List.replicate 982981 (Record.ofLine 1)).length = 32767 ∧
    ((create 32767 10000).info false).freeChunks = 32767 ∧
    (create 32767 10000).dump = [] ∧
    (create 32767 10000).fold .local ⟨1, 1, 1, 0⟩ (List.replicate 982981 (.ofLine 1)) = .error .addOverflow := by
  have hneeded : chunksNeeded (List.replicate 982981 (Record.ofLine 1)).length = 32767 := by
    rw [List.length_replicate]
    norm_num [chunksNeeded, recordsPerChunk]
  have hfree : ((create 32767 10000).info false).freeChunks = 32767 := freeChunks_create 32767 10000 false
  have habsent : ∀ c ∈ (create 32767 10000).dump, c.key.identity ≠ ⟨1, 1, 1, 0⟩ := by simp [dump_create]
  refine ⟨hneeded, hfree, dump_create 32767 10000, ?_⟩
  exact (tidy_create 32767 10000).fold_past_last habsent .local (by rw [hneeded]; norm_num) (by rw [hfree]; norm_num)

end Region

end ProcProfile
