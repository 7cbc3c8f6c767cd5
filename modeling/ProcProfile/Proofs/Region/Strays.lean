import Mathlib.Tactic
import ProcProfile.Proofs.Removal

/-!
# Chunks that chunk 1 does not lead to

A chunk of an incarnation is looked up under the lock of its chunk 1, and the chunks of an incarnation are
removed from number to number, from chunk 1 on.  Chunks can be inserted under any number, so there may be
*stray* ones: chunks of an incarnation without a chunk 1, and chunks behind a number that is missing.  A stray
chunk is listed, but an operation on its incarnation does not come to it.

* `RunsTo`, `exists_runsTo`: how far the chunks of an incarnation follow each other;
* `findChunk_listed`: a listed chunk is found exactly if its incarnation has a chunk 1;
* `reset_runsTo`, `reset_all_numbers`: removing an incarnation removes the chunks that follow each other;
* `createChunks_stray`: a first fold that comes to a stray chunk is refused;
* `RunRemoved`, `listed_chunks_reached`: all of it after any requests;
* `stray_chunk_out_of_reach`: a single chunk 2.
-/

namespace ProcProfile

/-- Whether a chunk is one of chunks 1 to `k` of an incarnation. -/
def ChunkKey.isAmong (key : ChunkKey) (id : Identity) (k : Nat) : Bool :=
  decide (key.identity = id ∧ 1 ≤ key.number.toInt ∧ key.number.toInt ≤ k)

theorem ChunkKey.isAmong_iff {key : ChunkKey} {id : Identity} {k : Nat} (hfiller : key.filler = 0)
    (hk : k < 2 ^ 15) : key.isAmong id k = true ↔ ∃ j < k, key = .nth id (1 + j) := by
  unfold isAmong
  rw [decide_eq_true_eq]
  constructor
  · rintro ⟨rfl, hpos, hle⟩
    refine ⟨key.number.toInt.toNat - 1, by omega, ?_⟩
    rw [show 1 + (key.number.toInt.toNat - 1) = key.number.toInt.toNat by omega]
    exact eq_nth hfiller (by omega)
  · rintro ⟨j, hj, rfl⟩
    rw [toInt_number_nth id (by omega)]
    exact ⟨rfl, by omega, by omega⟩

namespace Region

variable {r r' : Region} {id : Identity}

theorem Tidy.filler_of_mem (h : r.Tidy) {c : Chunk} (hc : c ∈ r.dump) : c.key.filler = 0 := by
  obtain ⟨i, hi, -⟩ := (chunk?_eq_some_iff h.settled.sound).1 ((mem_dump h.settled.sound).1 hc)
  exact h.filler i c.key hi

theorem chunk?_ne_none_iff (h : r.Sound) {key : ChunkKey} :
    r.chunk? key ≠ none ↔ ∃ c ∈ r.dump, c.key = key := by
  constructor
  · intro hkey
    obtain ⟨page, hpage⟩ := Option.ne_none_iff_exists'.1 hkey
    exact ⟨⟨key, page⟩, (mem_dump h).2 hpage, rfl⟩
  · rintro ⟨c, hc, rfl⟩
    rw [(mem_dump h).1 hc]
    exact Option.some_ne_none _

theorem chunk?_eq_none_iff_dump (h : r.Sound) {key : ChunkKey} :
    r.chunk? key = none ↔ ∀ c ∈ r.dump, c.key ≠ key := by
  rw [← not_iff_not, ← ne_eq, chunk?_ne_none_iff h]
  simp

/-! ### Chunks that follow each other -/

/-- Chunks 1 to `k` of an incarnation are stored, and chunk `k + 1`, if there is such a number, is not. -/
structure RunsTo (r : Region) (id : Identity) (k : Nat) : Prop where
  lt : k < 2 ^ 15
  stored : ∀ m, 1 ≤ m → m ≤ k → ∃ c ∈ r.dump, c.key = .nth id m
  gap : k + 1 < 2 ^ 15 → ∀ c ∈ r.dump, c.key ≠ .nth id (k + 1)

/-- The chunks of an incarnation follow each other up to some number, perhaps up to none at all. -/
theorem exists_runsTo (r : Region) (id : Identity) : ∃ k, r.RunsTo id k := by
  classical
  by_cases hall : ∀ m, 1 ≤ m → m < 2 ^ 15 → ∃ c ∈ r.dump, c.key = .nth id m
  · refine ⟨2 ^ 15 - 1, by norm_num, fun m hpos hm => hall m hpos (by omega), fun hlt => ?_⟩
    exact absurd hlt (by norm_num)
  · push Not at hall
    -- the first number without a chunk ends the run
    obtain ⟨hpos, hlt, hgap⟩ := Nat.find_spec hall
    have hbefore := fun m => @Nat.find_min _ _ hall m
    generalize Nat.find hall = first at hpos hlt hgap hbefore
    refine ⟨first - 1, by omega, fun m hm hle => ?_, fun _ => ?_⟩
    · by_contra hnone
      push Not at hnone
      exact hbefore m (by omega) ⟨hm, by omega, hnone⟩
    · rwa [show first - 1 + 1 = first by omega]

/-- The chunks that follow each other, as a dump lists them. -/
theorem RunsTo.filter_dump {k : Nat} (hrun : r.RunsTo id k) (h : r.Tidy) :
    ((r.dump.filter fun c => c.key.isAmong id k).map Chunk.key) =
      (List.range k).map fun j => .nth id (1 + j) := by
  have hlt := hrun.lt
  have hnumbers : ((List.range k).map fun j => ChunkKey.nth id (1 + j)).Pairwise fun a b => a.rank < b.rank := by
    rw [List.pairwise_map]
    refine List.pairwise_lt_range.imp_of_mem fun {a b} _ hb hab => ?_
    have hbk := List.mem_range.1 hb
    exact ChunkKey.rank_nth_lt id (by omega) (by omega)
  refine eq_of_pairwise_rank (List.pairwise_map.2 (h.pairwise_rank_dump.filter _)) hnumbers fun key => ?_
  simp only [List.mem_map, List.mem_filter, List.mem_range]
  constructor
  · rintro ⟨c, ⟨hc, hamong⟩, rfl⟩
    obtain ⟨j, hj, hkey⟩ := (ChunkKey.isAmong_iff (h.filler_of_mem hc) hlt).1 hamong
    exact ⟨j, hj, hkey.symm⟩
  · rintro ⟨j, hj, rfl⟩
    obtain ⟨c, hc, hkey⟩ := hrun.stored (1 + j) (by omega) (by omega)
    have hamong := (ChunkKey.isAmong_iff (h.filler_of_mem hc) hlt).2 ⟨j, hj, hkey⟩
    exact ⟨c, ⟨hc, hamong⟩, hkey⟩

theorem RunsTo.length_filter {k : Nat} (hrun : r.RunsTo id k) (h : r.Tidy) :
    (r.dump.filter fun c => c.key.isAmong id k).length = k := by
  have hlength := congrArg List.length (hrun.filter_dump h)
  simpa using hlength

/-! ### Looking for a chunk -/

/-- A listed chunk is found exactly if its incarnation has a chunk 1. -/
theorem findChunk_listed (h : r.Tidy) {c : Chunk} (hc : c ∈ r.dump) (o : Owner) :
    ((∃ d ∈ r.dump, d.key = .first c.key.identity) →
      Access.answer <$> r.findChunk o c.key.identity c.key.number = .ok (some c)) ∧
    ((∀ d ∈ r.dump, d.key ≠ .first c.key.identity) →
      Access.answer <$> r.findChunk o c.key.identity c.key.number = .ok none) := by
  have hsound := h.settled.sound
  have hkey : ChunkKey.new c.key.identity c.key.number = c.key := by
    rw [ChunkKey.new, ← h.filler_of_mem hc]
  have hpage : r.chunk? (.new c.key.identity c.key.number) = some c.records := by
    rw [hkey]
    exact (mem_dump hsound).1 hc
  rw [(reads_findChunk h.settled o _ _).answer_eq, foundChunk_eq, hpage, Option.bind_some, hkey]
  constructor
  · intro hfirst
    obtain ⟨page, hone⟩ := Option.ne_none_iff_exists'.1 ((chunk?_ne_none_iff hsound).2 hfirst)
    rw [hone]
    split_ifs <;> rfl
  · intro hfirst
    have hnumber : c.key.number ≠ 1 := by
      intro hone
      apply hfirst c hc
      rw [← hkey, hone]
      rfl
    rw [(chunk?_eq_none_iff_dump hsound).2 hfirst, if_neg hnumber]
    rfl

/-! ### Removing an incarnation -/

/-- Removing an incarnation ends where its chunks cease to follow each other. -/
theorem reset_runsTo (h : r.Tidy) {k : Nat} (hrun : r.RunsTo id k) (hk : k + 1 < 2 ^ 15) :
    ∃ r', r.reset (.incarnation id) = .ok (r', k) ∧
      ∀ key, r'.chunk? key = if key.isAmong id k then none else r.chunk? key := by
  have hsound := h.settled.sound
  have hstored : ∀ j < k, r.chunk? (.nth id (1 + j)) ≠ none := fun j hj =>
    (chunk?_ne_none_iff hsound).2 (hrun.stored (1 + j) (by omega) (by omega))
  have hgap : r.chunk? (.nth id (1 + k)) = none := by
    rw [Nat.add_comm]
    exact (chunk?_eq_none_iff_dump hsound).2 (hrun.gap hk)
  obtain ⟨slots, hremove, hslots⟩ := removeChain_eq h.settled hstored hgap (by omega)
    (by unfold chunkNumberBound; omega : k < chunkNumberBound) 0
  rw [Nat.zero_add] at hremove
  refine ⟨slots.foldl Region.remove r, hremove, fun key => ?_⟩
  refine (removedFrom_foldl h.settled slots).chunk?_eq hsound (fun key => key.isAmong id k = true) ?_ key
  intro i key hi
  rw [hslots i key hi, ChunkKey.isAmong_iff (h.filler i key hi) (by omega)]

/-- If every number has a chunk, the number after the last one is asked for. -/
theorem removeChain_all_numbers (h : r.Settled) {m fuel : Nat} (hm : m < 2 ^ 15) (hfuel : 2 ^ 15 - m ≤ fuel)
    (hstored : ∀ j, m ≤ j → j < 2 ^ 15 → r.chunk? (.nth id j) ≠ none) (removed : Nat) :
    removeChain fuel (.nth id m) removed r = .error .addOverflow := by
  induction fuel generalizing r m removed with
  | zero => omega
  | succ fuel ih =>
    obtain ⟨page, hpage⟩ := Option.ne_none_iff_exists'.1 (hstored m le_rfl hm)
    obtain ⟨i, hholds, -⟩ := (chunk?_eq_some_iff h.sound).1 hpage
    have hi : r.find? (.nth id m) = some i := (Table.find?_eq_some_iff h.sound.chunks.sound).2 hholds
    rw [removeChain, hi]
    simp only [ChunkKey.next_nth id hm]
    by_cases hlast : m + 1 < 2 ^ 15
    · rw [if_pos hlast]
      refine ih (h.remove i) hlast (by omega) (fun j hj hlt => ?_) (removed + 1)
      obtain ⟨page', hpage'⟩ := Option.ne_none_iff_exists'.1 (hstored j (by omega) hlt)
      obtain ⟨i', hholds', -⟩ := (chunk?_eq_some_iff h.sound).1 hpage'
      have hne : i ≠ i' := by
        rintro rfl
        have := ((ChunkKey.nth_inj hm hlt).1 (hholds.key_unique hholds')).2
        omega
      have hleft : (r.remove i).chunks.Holds i' (.nth id j) := by
        rw [chunks_remove, Table.holds_remove]
        exact ⟨hne, hholds'⟩
      rw [chunk?_of_holds (h.sound.remove i) hleft]
      exact Option.some_ne_none _
    · rw [if_neg hlast]
      rfl

theorem reset_all_numbers (h : r.Tidy) {k : Nat} (hrun : r.RunsTo id k) (hk : k + 1 = 2 ^ 15) :
    r.reset (.incarnation id) = .error .addOverflow := by
  refine removeChain_all_numbers h.settled (m := 1) (by norm_num) (by unfold chunkNumberBound; omega) ?_ 0
  intro j hpos hlt
  exact (chunk?_ne_none_iff h.settled.sound).2 (hrun.stored j hpos (by omega))

/-! ### Folding into an incarnation with stray chunks -/

/-- Creating chunks comes to one that is there already, and takes those before it out again. -/
theorem createChunks_stray {r₀ : Region} (h₀ : r₀.Settled) {pages : List (List Record)} {created : List Nat}
    (hadd : AddedTo r₀ created r) {m s : Nat} (hms : m ≤ s) (hs : s < 2 ^ 15) (hpages : s < m + pages.length)
    (habsent : ∀ j, m ≤ j → j < s → r.chunk? (.nth id j) = none) (hstray : r.chunk? (.nth id s) ≠ none)
    (hroom : s - m ≤ r.free) :
    ∃ q, createChunks pages (.nth id m) created r =
        .ok (q, .error (.duplicateChunk id.unitId (.ofNat s))) ∧ Same r₀ q := by
  induction pages generalizing r m created with
  | nil =>
    rw [List.length_nil] at hpages
    omega
  | cons page pages ih =>
    rw [List.length_cons] at hpages
    rcases Nat.eq_or_lt_of_le hms with rfl | hlt
    · refine ⟨created.foldl Region.remove r, ?_, hadd.same h₀⟩
      obtain ⟨page', hpage'⟩ := Option.ne_none_iff_exists'.1 hstray
      obtain ⟨i, hi, -⟩ := (chunk?_eq_some_iff hadd.settled.sound).1 hpage'
      rcases insert_cases hadd.settled.sound (.nth id m) with ⟨j, -, he⟩ | ⟨hnone, -⟩ | ⟨hnone, -⟩
      · rw [createChunks, he]
        rfl
      · exact absurd hi (hnone i)
      · exact absurd hi (hnone i)
    · have hnone := habsent m le_rfl hlt
      obtain ⟨i, r₁, hins, hadd₁, hview, hfree, -⟩ := hadd.create hnone (by omega) (fillPage page)
      have hothers : ∀ j, m < j → j ≤ s → (r₁.writePage i (fillPage page)).chunk? (.nth id j) =
          r.chunk? (.nth id j) := by
        intro j hj hjs
        rw [hview, Function.update_of_ne]
        intro he
        have := ((ChunkKey.nth_inj (by omega) (by omega)).1 he).2
        omega
      rw [createChunks, hins]
      simp only [ChunkKey.next_nth id (by omega : m < 2 ^ 15), if_pos (by omega : m + 1 < 2 ^ 15)]
      refine ih hadd₁ hlt (by omega) (fun j hj hjs => ?_) ?_ (by omega)
      · rw [hothers j (by omega) (by omega)]
        exact habsent j (by omega) hjs
      · rw [hothers s hlt le_rfl]
        exact hstray

/-- A first fold that needs the number of a stray chunk is refused, and nobody sees that it was tried. -/
theorem fold_stray (h : r.Tidy) {s : Nat} (hpos : 1 < s) (hs : s < 2 ^ 15)
    (hstray : ∃ c ∈ r.dump, c.key = .nth id s)
    (hbefore : ∀ m, 1 ≤ m → m < s → ∀ c ∈ r.dump, c.key ≠ .nth id m)
    (hroom : s - 1 ≤ (r.info false).freeChunks) (o : Owner) {records : List Record}
    (hneeded : s ≤ chunksNeeded records.length) :
    ∃ access, r.fold o id records = .ok access ∧
      access.answer = .error (.duplicateChunk id.unitId (.ofNat s)) ∧ SameView r access.region := by
  have hsound := h.settled.sound
  have habsent : ∀ j, 1 ≤ j → j < s → r.chunk? (.nth id j) = none := fun j hj hjs =>
    (chunk?_eq_none_iff_dump hsound).2 (hbefore j hj hjs)
  have hfind : r.find? (.first id) = none := by
    have hfirst := habsent 1 le_rfl hpos
    rwa [chunk?, Option.map_eq_none_iff] at hfirst
  rw [← free_eq_freeChunks hsound] at hroom
  have hlength := length_pagesOf records
  obtain ⟨q, hcreate, hsame⟩ := createChunks_stray h.settled (.refl h.settled)
    (by omega : 1 ≤ s) hs (by omega : s < 1 + (pagesOf records).length) habsent
    ((chunk?_ne_none_iff hsound).2 hstray) hroom
  refine ⟨.pure q (.error (.duplicateChunk id.unitId (.ofNat s))), ?_, rfl, hsame.sameView h⟩
  rw [← ChunkKey.first_eq_nth] at hcreate
  rw [fold, hfind]
  dsimp only
  rw [hcreate]
  rfl

/-! ### After any requests -/

/-- What is left of a region of which an incarnation was removed, chunks 1 to `k` of it. -/
structure RunRemoved (r : Region) (id : Identity) (k : Nat) (r' : Region) : Prop where
  dump : r'.dump = r.dump.filter fun c => !c.key.isAmong id k
  removed : k = (r.dump.filter fun c => c.key.isAmong id k).length
  used : ∀ shared, (r'.info shared).usedChunks + k = (r.info shared).usedChunks
  findChunk : ∀ o id' number, id' ≠ id →
    Access.answer <$> r'.findChunk o id' number = Access.answer <$> r.findChunk o id' number
  readRecords : ∀ o id', id' ≠ id →
    Access.answer <$> r'.readRecords o id' = Access.answer <$> r.readRecords o id'
  calls : SameCalls r r'
  /-- Nothing of the incarnation can be read any more. -/
  unread : ∀ o, Access.answer <$> r'.readRecords o id = .ok none
  /-- Without stray chunks the incarnation is gone, as if it had never been. -/
  whole : (∀ c ∈ r.dump, c.key.identity = id → c.key.isAmong id k = true) →
    (r'.dump = r.dump.filter fun c => !decide (c.key.identity = id)) ∧
    k = (r.dump.filter fun c => decide (c.key.identity = id)).length ∧ r'.AsNew id
  /-- The first stray chunk stops every first fold that needs its number, if there is room up to it. -/
  stray : ∀ s, 1 < s → s < 2 ^ 15 → (∃ c ∈ r'.dump, c.key = .nth id s) →
    (∀ m, 1 ≤ m → m < s → ∀ c ∈ r'.dump, c.key ≠ .nth id m) → s - 1 ≤ (r'.info false).freeChunks →
    ∀ o (records : List Record), s ≤ chunksNeeded records.length →
      ∃ access, r'.fold o id records = .ok access ∧
        access.answer = .error (.duplicateChunk id.unitId (.ofNat s)) ∧ SameView r' access.region

theorem runRemoved_of_reset (h : r.Tidy) {k : Nat} (hrun : r.RunsTo id k)
    (hreset : r.reset (.incarnation id) = .ok (r', k))
    (hchunks : ∀ key, r'.chunk? key = if key.isAmong id k then none else r.chunk? key) :
    RunRemoved r id k r' := by
  have h' := h.reset hreset
  have hdump : r'.dump = r.dump.filter fun c => !c.key.isAmong id k := by
    refine dump_eq_filter (q := fun key => !key.isAmong id k) h h' fun key => ?_
    rw [hchunks]
    cases key.isAmong id k <;> rfl
  have hothers : ∀ id', id' ≠ id → ∀ key : ChunkKey, key.identity = id' → r'.chunk? key = r.chunk? key := by
    rintro id' hne key rfl
    rw [hchunks, if_neg]
    simp [ChunkKey.isAmong, hne]
  have hunits : r'.units = r.units := by
    rw [← withUnits_reset hreset, units_withUnits]
  have hlength := hrun.length_filter h
  have hfirst : r'.chunk? (.first id) = none := by
    rw [hchunks]
    split_ifs with hone
    · rfl
    · -- chunk 1 was not among those removed, so there was none
      have hzero : k = 0 := by
        by_contra hpos
        exact hone ((ChunkKey.isAmong_iff rfl hrun.lt).2 ⟨0, by omega, rfl⟩)
      subst hzero
      exact (chunk?_eq_none_iff_dump h.settled.sound).2 (hrun.gap (by norm_num))
  refine ⟨hdump, hlength.symm, fun shared => ?_, fun o id' number hne => ?_, fun o id' hne => ?_,
    sameCalls_of_units h.settled h'.settled hunits, fun o => ?_, fun hwhole => ?_, ?_⟩
  · show r'.header.used.toNat + k = r.header.used.toNat
    rw [← length_dump h'.settled.sound, ← length_dump h.settled.sound, hdump,
      List.length_eq_length_filter_add (l := r.dump) fun c => c.key.isAmong id k, hlength]
    exact Nat.add_comm _ _
  · exact findChunk_congr h.settled h'.settled (hothers id' hne) o number
  · exact readRecords_congr h.settled h'.settled (hothers id' hne) o
  · rw [(reads_readRecords h'.settled o id).answer_eq, storedRecords_eq, hfirst]
    rfl
  · have hsame : ∀ c ∈ r.dump, c.key.isAmong id k = decide (c.key.identity = id) := by
      intro c hc
      by_cases hid : c.key.identity = id
      · rw [hwhole c hc hid, decide_eq_true hid]
      · simp [ChunkKey.isAmong, hid]
    have hleft : r'.dump = r.dump.filter fun c => !decide (c.key.identity = id) := by
      rw [hdump]
      refine List.filter_congr fun c hc => ?_
      rw [hsame c hc]
    refine ⟨hleft, ?_, asNew_of_absent h'.settled fun m _ => ?_⟩
    · rw [← hlength]
      exact congrArg List.length (List.filter_congr hsame)
    · rw [chunk?_eq_none_iff_dump h'.settled.sound, hleft]
      intro c hc hkey
      have hid := (List.mem_filter.1 hc).2
      rw [hkey] at hid
      simp [ChunkKey.nth, ChunkKey.new] at hid
  · intro s hpos hs hstray hbefore hroom o records hneeded
    exact fold_stray h' hpos hs hstray hbefore hroom o hneeded

/-- After any requests to a new store, an operation on an incarnation comes to the chunks that chunk 1 leads to: a
listed chunk is found exactly if its incarnation has a chunk 1, and removing an incarnation removes chunks 1 to
`k` of it, which follow each other, tells `k`, and leaves every other chunk.  It stops only if every number
has a chunk. -/
theorem listed_chunks_reached (capacity unitCapacity : UInt64) (requests : List StoreRequest)
    (hrun : serveAll requests (create capacity unitCapacity) = .ok r) :
    (∀ c ∈ r.dump, ∀ o,
      ((∃ d ∈ r.dump, d.key = .first c.key.identity) →
        Access.answer <$> r.findChunk o c.key.identity c.key.number = .ok (some c)) ∧
      ((∀ d ∈ r.dump, d.key ≠ .first c.key.identity) →
        Access.answer <$> r.findChunk o c.key.identity c.key.number = .ok none)) ∧
    ∀ id, ∃ k, r.RunsTo id k ∧
      (k + 1 = 2 ^ 15 → r.reset (.incarnation id) = .error .addOverflow) ∧
      (k + 1 < 2 ^ 15 → ∃ r', r.reset (.incarnation id) = .ok (r', k) ∧ RunRemoved r id k r') := by
  have htidy := (tidy_create capacity unitCapacity).serveAll hrun
  refine ⟨fun c hc o => findChunk_listed htidy hc o, fun id => ?_⟩
  obtain ⟨k, hk⟩ := r.exists_runsTo id
  refine ⟨k, hk, reset_all_numbers htidy hk, fun hlt => ?_⟩
  obtain ⟨r', hreset, hchunks⟩ := reset_runsTo htidy hk hlt
  exact ⟨r', hreset, runRemoved_of_reset htidy hk hreset hchunks⟩

/-- Two chunks that follow each other, a stray chunk 4, and a stray chunk 2 of another incarnation. -/
def gappedRequests : List StoreRequest :=
  [.insertChunk ⟨1, 1, 1, 0⟩ 4, .insertChunk ⟨1, 1, 2, 0⟩ 2, .fold .local ⟨1, 1, 1, 0⟩ (.replicate 31 (.ofLine 7))]

theorem listed_chunks_reached_gappedRequests :
    ∃ r r', serveAll gappedRequests (create 8 2) = .ok r ∧ (r.info false).usedChunks = 4 ∧
      r.reset (.incarnation ⟨1, 1, 1, 0⟩) = .ok (r', 2) ∧ RunRemoved r ⟨1, 1, 1, 0⟩ 2 r' ∧
      r'.chunk? (.new ⟨1, 1, 1, 0⟩ 4) = some (.replicate 30 .unused) := by
  obtain ⟨r, hrun, hfacts⟩ := bind_eq_ok_iff.1 (by decide +kernel : (do
    let r ← serveAll gappedRequests (create 8 2)
    let out ← r.reset (.incarnation ⟨1, 1, 1, 0⟩)
    return ((r.info false).usedChunks, out.2, out.1.chunk? (.new ⟨1, 1, 1, 0⟩ 4))) =
      Except.ok (4, 2, some (.replicate 30 .unused)))
  obtain ⟨out, hreset, hfacts⟩ := bind_eq_ok_iff.1 hfacts
  simp only [pure, Except.pure, Except.ok.injEq, Prod.mk.injEq] at hfacts
  obtain ⟨hused, hremoved, hstray⟩ := hfacts
  obtain ⟨-, hincarnations⟩ := listed_chunks_reached 8 2 gappedRequests hrun
  obtain ⟨k, hk, hall, hsome⟩ := hincarnations ⟨1, 1, 1, 0⟩
  have hlt : k + 1 < 2 ^ 15 := by
    rcases Nat.lt_or_ge (k + 1) (2 ^ 15) with hlt | hge
    · exact hlt
    · have hend := hk.lt
      rw [hall (by omega)] at hreset
      cases hreset
  obtain ⟨r', hreset', hrest⟩ := hsome hlt
  cases hreset.symm.trans hreset'
  subst hremoved
  exact ⟨r, r', hrun, hused, hreset', hrest, hstray⟩

/-- A chunk 2 alone is listed, but it is not found, stays when its incarnation is removed, and then stops a fold
that needs two chunks. -/
theorem stray_chunk_out_of_reach :
    ∃ r c, serveAll [.insertChunk ⟨1, 1, 1, 0⟩ 2] (create 4 2) = .ok r ∧ r.dump = [c] ∧
      c.key = .new ⟨1, 1, 1, 0⟩ 2 ∧
      Access.answer <$> r.findChunk .local ⟨1, 1, 1, 0⟩ 2 = .ok none ∧
      r.reset (.incarnation ⟨1, 1, 1, 0⟩) = .ok (r, 0) ∧
      Access.answer <$> r.fold .local ⟨1, 1, 1, 0⟩ (.replicate 31 (.ofLine 7)) =
        .ok (.error (.duplicateChunk 1 2)) := by
  have hfirst : ((create 4 2).insertChunk ⟨1, 1, 1, 0⟩ 2).1.find? (.first ⟨1, 1, 1, 0⟩) = none := by
    decide +kernel
  refine ⟨((create 4 2).insertChunk ⟨1, 1, 1, 0⟩ 2).1, ⟨.new ⟨1, 1, 1, 0⟩ 2, .replicate 30 .unused⟩, rfl,
    by decide +kernel, rfl, by decide +kernel, ?_, by decide +kernel⟩
  rw [reset, chunkNumberBound, removeChain, hfirst]

end Region

end ProcProfile
