import Mathlib.Algebra.BigOperators.Group.Finset.Sigma
import Mathlib.Tactic
import ProcProfile.Proofs.Region.Dump
import ProcProfile.Proofs.Region.Stored

/-!
# Whole incarnations

No operation leaves part of a profile behind, and the ways to read a profile agree.

* `Stores.readRecords_eq`, `Stores.findChunk_eq`, `Stores.dump_filter`, `Stores.exists_sum_used`: what each
  way to read tells about the stored profiles;
* `StoreOp`, `runAll`: any sequence of folds and resets, with the lines of the calls folded so far;
* `Intact`: what a store shows of each incarnation;
* `runAll_intact`: it shows whole incarnations after every sequence.
-/

namespace ProcProfile

namespace Region

namespace Stores

variable {r : Region} {a : Profiles}

theorem filler_eq_zero (h : Stores r a) (key : ChunkKey) (page : List Record)
    (hpage : r.chunk? key = some page) : key.filler = 0 := by
  rw [h.chunk?_eq] at hpage
  obtain ⟨j, -, hkey, -⟩ := pageFor_eq_some hpage
  rw [hkey]
  rfl

/-- Reading an incarnation gives its pages one after another, if it has a profile. -/
theorem readRecords_eq (h : Stores r a) (o : Owner) (id : Identity) :
    (r.readRecords o id).map Access.answer = .ok ((a id).map fun _ => (pagesFor a id).flatten) := by
  cases hid : a id with
  | none =>
    rw [readRecords, h.find?_first_absent hid]
    rfl
  | some stored =>
    obtain ⟨i, hi, hused⟩ := h.find?_first hid
    obtain ⟨page, pages, hpages⟩ := List.exists_cons_of_ne_nil (pagesFor_ne_nil hid)
    have hbound := h.bounded id
    have hchain := h.relock_chain hid i o.id
    rw [← pagesFor_some hid, hpages] at hchain
    rw [hpages, List.length_cons] at hbound
    have hread := chainRecords_eq (h.settled.sound.relock i o.id) hchain
      (relock_find?_first h.settled.sound hi o.id) (by omega)
      (by unfold chunkNumberBound; omega : pages.length < chunkNumberBound)
    rw [readRecords, hi]
    simp only [withChunk_eq h.settled hused, ChunkKey.first_eq_nth, hread, bind, Except.bind]
    rw [hpages]
    rfl

/-- Looking for a chunk gives a copy of it. -/
theorem findChunk_eq (h : Stores r a) (o : Owner) (id : Identity) (number : ChunkNumber) :
    (r.findChunk o id number).map Access.answer =
      .ok ((pageFor a (.new id number)).map fun page => ⟨.new id number, page⟩) := by
  rw [← h.chunk?_eq, findChunk, chunk?]
  cases hfind : r.find? (.new id number) with
  | none => rfl
  | some i =>
    have hholds := (Table.find?_eq_some_iff h.settled.sound.chunks.sound).1 hfind
    -- the incarnation has a profile, so that there is a chunk 1 to lock
    have hfirst : ∃ first, (if number = 1 then some i else r.find? (.first id)) = some first ∧
        r.chunks.isUsed first = true := by
      split_ifs
      · exact ⟨i, rfl, hholds.1⟩
      · cases hid : a id with
        | some stored => exact h.find?_first hid
        | none =>
          have hpage := chunk?_of_holds h.settled.sound hholds
          rw [h.chunk?_eq] at hpage
          obtain ⟨j, -, -, hget⟩ := pageFor_eq_some hpage
          rw [ChunkKey.identity_new, pagesFor_none hid] at hget
          cases hget
    obtain ⟨first, hfirst, hused⟩ := hfirst
    simp only [hfirst, withChunk_eq h.settled hused, page_relock]
    rfl

/-- The chunks of an incarnation in a dump are its pages in order. -/
theorem dump_filter (h : Stores r a) (id : Identity) :
    (r.dump.filter fun c => c.key.identity = id) =
      (pagesFor a id).mapIdx fun j page => ⟨.nth id (j + 1), page⟩ := by
  have hbound := h.bounded id
  refine eq_of_pairwise_rank
    ((pairwise_rank_dump h.settled.sound h.filler_eq_zero).filter _) ?_ fun c => ?_
  · rw [List.pairwise_iff_getElem]
    intro i j hi hj hij
    rw [List.length_mapIdx] at hj
    rw [List.getElem_mapIdx, List.getElem_mapIdx]
    exact ChunkKey.rank_nth_lt id (by omega) (by omega)
  · rw [List.mem_filter, mem_dump h.settled.sound, h.chunk?_eq, decide_eq_true_eq, List.mem_mapIdx]
    constructor
    · rintro ⟨hpage, rfl⟩
      obtain ⟨j, -, hkey, hget⟩ := pageFor_eq_some hpage
      obtain ⟨hj, hget⟩ := List.getElem?_eq_some_iff.1 hget
      exact ⟨j, hj, by rw [hget, ← hkey]⟩
    · rintro ⟨j, hj, rfl⟩
      exact ⟨(pageFor_nth a id (by omega)).trans (List.getElem?_eq_getElem hj), rfl⟩

/-- An incarnation has as many slots as its profile has pages. -/
theorem card_slots (h : Stores r a) (id : Identity) :
    (r.chunks.usedSlots.filter fun i => (r.chunks.get i).key.identity = id).card =
      (pagesFor a id).length := by
  have hsound := h.settled.sound
  have hbound := h.bounded id
  have hpages : ∀ i ∈ r.chunks.usedSlots.filter fun i => (r.chunks.get i).key.identity = id,
      ∃ j < (pagesFor a id).length, r.chunks.Holds i (.nth id (j + 1)) := by
    intro i hi
    obtain ⟨hused, hid⟩ := Finset.mem_filter.1 hi
    have hholds : r.chunks.Holds i (r.chunks.get i).key := ⟨Table.mem_usedSlots.1 hused, rfl⟩
    have hpage := chunk?_of_holds hsound hholds
    rw [h.chunk?_eq] at hpage
    obtain ⟨j, -, hkey, hget⟩ := pageFor_eq_some hpage
    rw [hid] at hkey hget
    exact ⟨j, (List.getElem?_eq_some_iff.1 hget).1, hkey ▸ hholds⟩
  -- slots and page numbers correspond, since no chunk is in two slots and no slot holds two chunks
  rw [← Finset.card_range (pagesFor a id).length]
  refine Finset.card_bij (fun i _ => (r.chunks.get i).key.number.toInt.toNat - 1) (fun i hi => ?_)
    (fun i hi i' hi' he => ?_) fun j hj => ?_
  · obtain ⟨j, hj, hholds⟩ := hpages i hi
    have hnum := ChunkKey.toInt_number_nth id (by omega : j + 1 < 2 ^ 15)
    rw [hholds.2, hnum, Finset.mem_range]
    omega
  · obtain ⟨j, hj, hholds⟩ := hpages i hi
    obtain ⟨j', hj', hholds'⟩ := hpages i' hi'
    have hnum := ChunkKey.toInt_number_nth id (by omega : j + 1 < 2 ^ 15)
    have hnum' := ChunkKey.toInt_number_nth id (by omega : j' + 1 < 2 ^ 15)
    rw [hholds.2, hholds'.2, hnum, hnum'] at he
    obtain rfl : j = j' := by omega
    exact hsound.chunks.sound.unique hholds hholds'
  · rw [Finset.mem_range] at hj
    have hchunk := h.chain id j (by omega)
    rw [Nat.add_comm, List.getElem?_eq_getElem hj] at hchunk
    obtain ⟨i, hholds, -⟩ := (chunk?_eq_some_iff hsound).1 hchunk
    have hnum := ChunkKey.toInt_number_nth id (by omega : j + 1 < 2 ^ 15)
    refine ⟨i, Finset.mem_filter.2 ⟨Table.mem_usedSlots.2 hholds.1, by rw [hholds.2]; rfl⟩, ?_⟩
    rw [hholds.2, hnum]
    omega

/-- The counter of used chunks tells how many chunks the profiles have together. -/
theorem exists_sum_used (h : Stores r a) :
    ∃ ids : Finset Identity, (∀ id, id ∈ ids ↔ a id ≠ none) ∧
      r.header.used.toNat = ∑ id ∈ ids, (pagesFor a id).length := by
  refine ⟨r.chunks.usedSlots.image fun i => (r.chunks.get i).key.identity, fun id => ?_, ?_⟩
  · have hslots : id ∈ r.chunks.usedSlots.image (fun i => (r.chunks.get i).key.identity) ↔
        0 < (pagesFor a id).length := by
      rw [← h.card_slots id, Finset.card_pos, Finset.mem_image]
      exact exists_congr fun i => by rw [Finset.mem_filter]
    rw [hslots, List.length_pos_iff]
    cases hid : a id with
    | none => simp [pagesFor_none hid]
    | some stored => simp [pagesFor_ne_nil hid]
  · rw [h.settled.sound.chunks.count,
      Finset.card_eq_sum_card_image (fun i => (r.chunks.get i).key.identity)]
    exact Finset.sum_congr rfl fun id _ => h.card_slots id

end Stores

end Region

/-! ### Sequences of operations -/

/-- An operation on the profiles of a store. -/
inductive StoreOp where
  | fold (o : Owner) (id : Identity) (records : List Record)
  | reset (scope : ResetScope)

namespace StoreOp

/-- A fold of records none of which has the reserved line, or a reset. -/
def Unreserved : StoreOp → Prop
  | .fold _ _ records => ∀ c ∈ records, c.line ≠ Record.unusedLine
  | .reset _ => True

instance : DecidablePred Unreserved
  | .fold _ _ records => inferInstanceAs (Decidable (∀ c ∈ records, c.line ≠ Record.unusedLine))
  | .reset _ => inferInstanceAs (Decidable True)

/-- Runs an operation, and keeps for each incarnation the lines of the call that was folded last. -/
def run : StoreOp → Region × (Identity → Option (List Int32)) →
    Except Fault (Region × (Identity → Option (List Int32)))
  | .fold o id records, (r, lines) => do
    let folded ← r.fold o id records
    match folded.answer with
    | .ok () => return (folded.region, Function.update lines id (some (records.map Record.line)))
    | .error _ => return (folded.region, lines)
  | .reset scope, (r, lines) => do
    let (r, _) ← r.reset scope
    return (r, scope.clear lines)

/-- Runs operations one after another. -/
def runAll : List StoreOp → Region × (Identity → Option (List Int32)) →
    Except Fault (Region × (Identity → Option (List Int32)))
  | [], state => .ok state
  | op :: ops, state => do
    let state ← op.run state
    runAll ops state

end StoreOp

namespace Region

/-- A region stores these profiles, their lines are these, and none is the reserved one. -/
structure Profiled (r : Region) (lines : Identity → Option (List Int32)) (a : Profiles) : Prop where
  stores : Stores r a
  lines_eq : ∀ id, lines id = (a id).map (List.map Record.line)
  unreserved : ∀ id records, a id = some records → ∀ c ∈ records, c.line ≠ Record.unusedLine

theorem Profiled.update {r r' : Region} {lines : Identity → Option (List Int32)} {a : Profiles}
    (h : Profiled r lines a) {id : Identity} {records : List Record} {ns : List Int32}
    (hs : Stores r' (Function.update a id (some records))) (hns : records.map Record.line = ns)
    (hused : Record.unusedLine ∉ ns) :
    Profiled r' (Function.update lines id (some ns)) (Function.update a id (some records)) where
  stores := hs
  lines_eq id' := by
    by_cases hid : id' = id
    · subst hid
      rw [Function.update_self, Function.update_self, Option.map_some, hns]
    · rw [Function.update_of_ne hid, Function.update_of_ne hid, h.lines_eq]
  unreserved id' records' hr c hc := by
    by_cases hid : id' = id
    · subst hid
      rw [Function.update_self, Option.some.injEq] at hr
      rw [← hr] at hc
      exact fun hline => hused (hns ▸ hline ▸ List.mem_map_of_mem hc)
    · rw [Function.update_of_ne hid] at hr
      exact h.unreserved id' records' hr c hc

/-- One operation keeps the profiles whole. -/
theorem Profiled.run {r r' : Region} {lines lines' : Identity → Option (List Int32)} {a : Profiles}
    (h : Profiled r lines a) {op : StoreOp} (hop : op.Unreserved)
    (hrun : op.run (r, lines) = .ok (r', lines')) : ∃ a', Profiled r' lines' a' := by
  cases op with
  | fold o id records =>
    obtain ⟨folded, hfold, hrun⟩ := bind_eq_ok_iff.1 hrun
    have hused : Record.unusedLine ∉ records.map Record.line := by
      simpa using fun c hc => hop c hc
    cases hid : a id with
    | none =>
      rcases h.stores.fold_new hid o records with ⟨he, -⟩ | ⟨r₁, he, hsame, -⟩ | ⟨r₁, he, hs, -⟩
      all_goals rw [he] at hfold; cases hfold
      all_goals cases hrun
      · exact ⟨a, h.stores.of_same hsame, h.lines_eq, h.unreserved⟩
      · exact ⟨_, h.update hs rfl hused⟩
    | some stored =>
      -- a fold that is not refused runs over the stored lines, and only then is it a merge
      rcases h.stores.fold_cases hid o (h.unreserved id stored hid) hop with ⟨f, he⟩ | ⟨r₁, e, he, hsame⟩ |
        hlines
      · rw [he] at hfold
        cases hfold
      · rw [he] at hfold
        cases hfold
        cases hrun
        exact ⟨a, h.stores.of_same hsame, h.lines_eq, h.unreserved⟩
      · have hlen : records.length = stored.length := by simpa using congrArg List.length hlines
        rcases h.stores.fold_lines hid o hlines with ⟨f, -, he⟩ | ⟨merged, r₁, hmerged, he, hs, -⟩
        all_goals rw [he] at hfold; cases hfold
        cases hrun
        exact ⟨_, h.update hs ((map_line_mergeRecords hlen hmerged).trans hlines.symm) hused⟩
  | reset scope =>
    obtain ⟨r₁, n, he, hs, -⟩ := h.stores.reset scope
    obtain ⟨done, hdone, hrun⟩ := bind_eq_ok_iff.1 hrun
    rw [he] at hdone
    cases hdone
    cases hrun
    refine ⟨scope.clear a, hs, fun id => ?_, fun id records hr => ?_⟩
    · unfold ResetScope.clear
      split_ifs
      · rfl
      · exact h.lines_eq id
    · unfold ResetScope.clear at hr
      split_ifs at hr
      exact h.unreserved id records hr

/-- So do any number of operations. -/
theorem Profiled.runAll {r r' : Region} {lines lines' : Identity → Option (List Int32)} {a : Profiles}
    (h : Profiled r lines a) {ops : List StoreOp} (hops : ∀ op ∈ ops, op.Unreserved)
    (hrun : StoreOp.runAll ops (r, lines) = .ok (r', lines')) : ∃ a', Profiled r' lines' a' := by
  induction ops generalizing r lines a with
  | nil =>
    cases hrun
    exact ⟨a, h⟩
  | cons op ops ih =>
    obtain ⟨⟨r₁, lines₁⟩, hfirst, hrest⟩ := bind_eq_ok_iff.1 hrun
    obtain ⟨a₁, h₁⟩ := h.run (hops op (by simp)) hfirst
    exact ih h₁ (fun op' hop' => hops op' (by simp [hop'])) hrest

/-- What a store shows if it holds whole profiles over these lines and nothing else. -/
structure Intact (r : Region) (lines : Identity → Option (List Int32)) : Prop where
  /-- An incarnation without a profile has no chunk. -/
  absent : ∀ id, lines id = none →
    (∀ o, (r.readRecords o id).map Access.answer = .ok none) ∧
    (∀ o number, (r.findChunk o id number).map Access.answer = .ok none) ∧
    (r.dump.filter fun c => c.key.identity = id) = []
  /-- An incarnation over `n` lines has chunks 1 to `chunksNeeded n` and no other ones.  All readers see the
  same pages: the records of the lines, and then unused ones. -/
  present : ∀ id ns, lines id = some ns → ∃ pages : List (List Record),
    pages.length = chunksNeeded ns.length ∧ pages.length < 2 ^ 15 ∧
    (∀ o, (r.readRecords o id).map Access.answer = .ok (some pages.flatten)) ∧
    (∀ o j (hj : j < pages.length),
      (r.findChunk o id (Int16.ofNat (j + 1))).map Access.answer = .ok (some ⟨.nth id (j + 1), pages[j]⟩)) ∧
    (∀ o (number : ChunkNumber), number.toInt < 1 ∨ pages.length < number.toInt →
      (r.findChunk o id number).map Access.answer = .ok none) ∧
    (r.dump.filter fun c => c.key.identity = id) =
      pages.mapIdx (fun j page => ⟨.nth id (j + 1), page⟩) ∧
    (pages.flatten.take ns.length).map Record.line = ns ∧
    pages.flatten.drop ns.length =
      List.replicate (recordsPerChunk * pages.length - ns.length) Record.unused
  /-- A dump is strictly increasing in database, unit, version, location and chunk number. -/
  increasing : r.dump.Pairwise fun c d => c.key.rank < d.key.rank
  /-- The chunks of all incarnations are counted. -/
  used : ∃ ids : Finset Identity, (∀ id, id ∈ ids ↔ lines id ≠ none) ∧
    ∀ shared, (r.info shared).usedChunks = ∑ id ∈ ids, chunksNeeded ((lines id).getD []).length

theorem Profiled.intact {r : Region} {lines : Identity → Option (List Int32)} {a : Profiles}
    (h : Profiled r lines a) : Intact r lines where
  absent id hid := by
    have hnone : a id = none := by simpa [h.lines_eq id] using hid
    refine ⟨fun o => ?_, fun o number => ?_, ?_⟩
    · rw [h.stores.readRecords_eq, hnone]
      rfl
    · rw [h.stores.findChunk_eq, pageFor, ChunkKey.identity_new, pagesFor_none hnone, List.getElem?_nil,
        ite_self, Option.map_none]
    · rw [h.stores.dump_filter, pagesFor_none hnone]
      rfl
  present id ns hid := by
    rw [h.lines_eq, Option.map_eq_some_iff] at hid
    obtain ⟨records, hrecords, rfl⟩ := hid
    have hlen := length_pagesFor hrecords
    have hbound := h.stores.bounded id
    have hflat : (pagesFor a id).flatten = records ++ List.replicate
        (recordsPerChunk * (pagesFor a id).length - records.length) Record.unused := by
      rw [hlen, pagesFor_some hrecords]
      exact flatten_fillPages (length_le_chunksNeeded records.length)
    refine ⟨pagesFor a id, by rw [hlen, List.length_map], by omega, fun o => ?_, fun o j hj => ?_,
      fun o number hnumber => ?_, h.stores.dump_filter id, ?_, ?_⟩
    · rw [h.stores.readRecords_eq, hrecords, Option.map_some]
    · have hpage : pageFor a (.new id (Int16.ofNat (j + 1))) = some (pagesFor a id)[j] :=
        (pageFor_nth a id (by omega)).trans (List.getElem?_eq_getElem hj)
      rw [h.stores.findChunk_eq, hpage]
      rfl
    · rw [h.stores.findChunk_eq, Except.ok.injEq, Option.map_eq_none_iff, pageFor]
      split_ifs with hkey
      · have hpos : 1 ≤ number.toInt := hkey.2
        refine List.getElem?_eq_none ?_
        show (pagesFor a id).length ≤ number.toInt.toNat - 1
        omega
      · rfl
    · rw [hflat, List.length_map, List.take_left]
    · rw [hflat, List.length_map, List.drop_left]
  increasing := pairwise_rank_dump h.stores.settled.sound h.stores.filler_eq_zero
  used := by
    obtain ⟨ids, hids, hsum⟩ := h.stores.exists_sum_used
    refine ⟨ids, fun id => by simp [hids, h.lines_eq], fun shared => ?_⟩
    rw [show (r.info shared).usedChunks = r.header.used.toNat from rfl, hsum]
    refine Finset.sum_congr rfl fun id hid => ?_
    obtain ⟨records, hrecords⟩ := Option.ne_none_iff_exists'.1 ((hids id).1 hid)
    rw [length_pagesFor hrecords, h.lines_eq, hrecords, Option.map_some, Option.getD_some, List.length_map]

/-- **Whole incarnations.**  After every sequence of folds and resets on an empty store, an incarnation has
either no chunk or exactly the chunks of its profile, and all ways to read it agree. -/
theorem runAll_intact (capacity unitCapacity : UInt64) (ops : List StoreOp)
    (hops : ∀ op ∈ ops, op.Unreserved) {r : Region} {lines : Identity → Option (List Int32)}
    (hrun : StoreOp.runAll ops (create capacity unitCapacity, fun _ => none) = .ok (r, lines)) :
    Intact r lines := by
  have hstart : Profiled (create capacity unitCapacity) (fun _ => none) fun _ => none :=
    ⟨.create capacity unitCapacity, fun _ => rfl, by simp⟩
  obtain ⟨a, h⟩ := hstart.runAll hops hrun
  exact h.intact

/-- A profile of two chunks is folded and removed again.  In between, a call of a second incarnation is
folded twice, one over other lines is refused, and there is no room for a third incarnation. -/
def sampleOps : List StoreOp :=
  [.fold .local ⟨1, 1, 0, 0⟩ ((List.range 31).map fun n => .ofLine (Int32.ofNat n)),
    .fold .local ⟨2, 1, 0, 0⟩ [.ofLine 7], .fold .local ⟨2, 1, 0, 0⟩ [.ofLine 7],
    .fold .local ⟨2, 1, 0, 0⟩ [.ofLine 8], .fold .local ⟨3, 1, 0, 0⟩ [.ofLine 9],
    .reset (.incarnation ⟨1, 1, 0, 0⟩)]

theorem runAll_sampleOps_intact :
    (∀ op ∈ sampleOps, op.Unreserved) ∧
    ∃ r lines, StoreOp.runAll sampleOps (create 3 1, fun _ => none) = .ok (r, lines) ∧
      lines ⟨1, 1, 0, 0⟩ = none ∧ lines ⟨2, 1, 0, 0⟩ = some [7] ∧ lines ⟨3, 1, 0, 0⟩ = none ∧
      Intact r lines := by
  have hops : ∀ op ∈ sampleOps, op.Unreserved := by decide +kernel
  obtain ⟨⟨r, lines⟩, hrun, hlines⟩ := map_eq_ok_iff.1 (by decide +kernel :
    (fun state => (state.2 ⟨1, 1, 0, 0⟩, state.2 ⟨2, 1, 0, 0⟩, state.2 ⟨3, 1, 0, 0⟩)) <$>
      StoreOp.runAll sampleOps (create 3 1, fun _ => none) = .ok (none, some [7], none))
  simp only [Prod.mk.injEq] at hlines
  exact ⟨hops, r, lines, hrun, hlines.1, hlines.2.1, hlines.2.2, runAll_intact 3 1 sampleOps hops hrun⟩

end Region

end ProcProfile
