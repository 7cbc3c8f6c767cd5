import Mathlib.Tactic
import ProcProfile.Proofs.Record
import ProcProfile.Proofs.Region.Chunks

/-!
# Walks along the chunks of a profile

Folding, reading and removing go along the chunks of an incarnation, from number to number.

* `putPages`: a map of chunks with consecutive pages of an incarnation put into it;
* `createChunks_cases`: creating chunks puts all the pages, or leaves everything as it was, or passes the
  last chunk number;
* `fold_absent`: the same of a fold into an incarnation without chunks;
* `Chain`: the pages of consecutive chunks;
* `mergedPages_of_lines`, `lines_of_mergedPages`: a call over the stored lines is merged as a whole, and no
  other call is;
* `fault_of_mergedPages`: a merge faults only where two records cannot be merged;
* `chainRecords_eq`, `removeChain_eq`: reading and removing a chain.
-/

namespace ProcProfile

namespace Region

/-! ### Consecutive pages in a map of chunks -/

/-- A map of chunks in which chunks `m`, `m + 1`, … of an incarnation hold these pages. -/
def putPages (a : ChunkKey → Option (List Record)) (id : Identity) :
    (m : Nat) → (pages : List (List Record)) → ChunkKey → Option (List Record)
  | _, [] => a
  | m, page :: pages => putPages (Function.update a (.nth id m) (some page)) id (m + 1) pages

theorem putPages_of_ne {a : ChunkKey → Option (List Record)} {id : Identity} {m : Nat}
    {pages : List (List Record)} {key : ChunkKey} (h : ∀ j < pages.length, key ≠ .nth id (m + j)) :
    putPages a id m pages key = a key := by
  induction pages generalizing a m with
  | nil => rfl
  | cons page pages ih =>
    have hne : key ≠ .nth id m := h 0 (by simp)
    rw [putPages, ih, Function.update_of_ne hne]
    intro j hj
    have hne := h (j + 1) (by simpa using hj)
    rwa [show m + (j + 1) = m + 1 + j by omega] at hne

theorem putPages_nth {a : ChunkKey → Option (List Record)} {id : Identity} {m : Nat}
    {pages : List (List Record)} (hm : m + pages.length ≤ 2 ^ 15) {j : Nat} (hj : j < pages.length) :
    putPages a id m pages (.nth id (m + j)) = pages[j]? := by
  induction pages generalizing a m j with
  | nil => simp at hj
  | cons page pages ih =>
    rw [List.length_cons] at hm hj
    cases j with
    | zero =>
      -- the later pages go to chunks of greater numbers
      rw [putPages, putPages_of_ne, Nat.add_zero, Function.update_self, List.getElem?_cons_zero]
      intro j hj he
      have := ((ChunkKey.nth_inj (by omega) (by omega)).1 he).2
      omega
    | succ j =>
      rw [putPages, List.getElem?_cons_succ, show m + (j + 1) = m + 1 + j by omega]
      exact ih (by omega) (by omega)

/-! ### Creating chunks -/

/-- A region to which chunks were added in the slots `created`. -/
structure AddedTo (r₀ : Region) (created : List Nat) (r : Region) : Prop where
  settled : r.Settled
  holds : ∀ i key, r₀.chunks.Holds i key ↔ r.chunks.Holds i key ∧ i ∉ created
  page : ∀ i key, r₀.chunks.Holds i key → r.page i = r₀.page i
  size : r.chunks.size = r₀.chunks.size
  units : r.units = r₀.units
  header : r.header = { r₀.header with used := r.header.used }

theorem AddedTo.refl {r : Region} (h : r.Settled) : AddedTo r [] r :=
  ⟨h, fun i key => by simp, fun _ _ _ => rfl, rfl, rfl, rfl⟩

/-- Without the added chunks the region is as before. -/
theorem AddedTo.same {r₀ r : Region} {created : List Nat} (h : AddedTo r₀ created r) (h₀ : r₀.Settled) :
    Same r₀ (created.foldl Region.remove r) := by
  obtain ⟨hset, hholds, hpage, hsize, hunits, hheader⟩ := removedFrom_foldl h.settled created
  have hsame : ∀ i key, (created.foldl Region.remove r).chunks.Holds i key ↔ r₀.chunks.Holds i key :=
    fun i key => (hholds i key).trans (h.holds i key).symm
  refine ⟨hset, hsame, fun i key hi => (hpage i).trans (h.page i key hi), hsize.trans h.size,
    hunits.trans h.units, ?_⟩
  -- both counters tell the number of used slots
  have hused : (created.foldl Region.remove r).header.used = r₀.header.used := by
    rw [← UInt64.toNat_inj, hset.sound.chunks.count, h₀.sound.chunks.count, usedSlots_eq_of_holds hsame]
  rw [hheader, hused, h.header]

theorem AddedTo.insert {r₀ r r' : Region} {created : List Nat} {key : ChunkKey} {i : Nat}
    (h : AddedTo r₀ created r) (hi : Inserted r key i r') : AddedTo r₀ (i :: created) r' where
  settled := hi.settled
  holds j k := by
    rw [h.holds, hi.holds, List.mem_cons, not_or]
    constructor
    · rintro ⟨hj, hnot⟩
      exact ⟨.inr hj, fun hji => hi.fresh (hji ▸ hj.1), hnot⟩
    · rintro ⟨hj, hji, hnot⟩
      exact ⟨hj.resolve_left fun he => hji he.1, hnot⟩
  page j k hj := by
    have hne : j ≠ i := fun hji => hi.fresh (hji ▸ ((h.holds j k).1 hj).1.1)
    rw [hi.page j hne, h.page j k hj]
  size := hi.size.trans h.size
  units := hi.units.trans h.units
  header := by rw [hi.header, h.header]

theorem AddedTo.writePage {r₀ r : Region} {created : List Nat} (h : AddedTo r₀ created r) {i : Nat}
    (hused : r.chunks.isUsed i = true) (hi : i ∈ created) (records : List Record) :
    AddedTo r₀ created (r.writePage i records) where
  settled := (rewritten_writePage h.settled.sound i records).settled h.settled
  holds j k := by
    rw [h.holds]
    exact and_congr_left' (r.chunks.holds_write i _ j k).symm
  page j k hj := by
    rw [page_writePage hused, if_neg, h.page j k hj]
    rintro rfl
    exact ((h.holds i k).1 hj).2 hi
  size := (Table.size_write ..).trans h.size
  units := h.units
  header := h.header

/-- A new chunk with a page of its own, while there is room. -/
theorem AddedTo.create {r₀ r : Region} {created : List Nat} (h : AddedTo r₀ created r) {key : ChunkKey}
    (habsent : r.chunk? key = none) (hroom : 0 < r.free) (page : List Record) :
    ∃ i r', r.insert key = (r', .ok i) ∧ AddedTo r₀ (i :: created) (r'.writePage i page) ∧
      (r'.writePage i page).chunk? = Function.update r.chunk? key (some page) ∧
      (r'.writePage i page).free + 1 = r.free ∧ (r'.writePage i page).capacity = r.capacity := by
  obtain ⟨i, r', hins, hi⟩ := insert_room h.settled habsent hroom
  have hholds : r'.chunks.Holds i key := (hi.holds i key).2 (.inl ⟨rfl, rfl⟩)
  refine ⟨i, r', hins, (h.insert hi).writePage hholds.1 (by simp) page, ?_, ?_,
    (Table.size_write ..).trans hi.size⟩
  · rw [chunk?_writePage hi.settled.sound hholds, hi.chunk?_eq h.settled.sound habsent,
      Function.update_idem]
  · rw [(rewritten_writePage hi.settled.sound i page).free_eq, hi.free_eq]

/-- Creating chunks of an incarnation that has none from number `m` on: either a chunk that there is room
for has the last number, or there is not room for all and the region stays as it was, or all the pages
are put. -/
theorem createChunks_cases {r₀ r : Region} {id : Identity} {m : Nat} (pages : List (List Record))
    {created : List Nat} (h₀ : r₀.Settled) (hadd : AddedTo r₀ created r) (hm : m < 2 ^ 15)
    (habsent : ∀ j, m ≤ j → j < 2 ^ 15 → r.chunk? (.nth id j) = none) :
    (createChunks pages (.nth id m) created r = .error .addOverflow ∧
      2 ^ 15 ≤ m + pages.length ∧ 2 ^ 15 ≤ m + r.free) ∨
    (∃ r', createChunks pages (.nth id m) created r = .ok (r', .error (.exhausted r.capacity)) ∧
      Same r₀ r' ∧ r.free < pages.length ∧ m + r.free < 2 ^ 15) ∨
    (∃ r' created', createChunks pages (.nth id m) created r = .ok (r', .ok ()) ∧
      AddedTo r₀ created' r' ∧ r'.chunk? = putPages r.chunk? id m (pages.map fillPage) ∧
      r'.free + pages.length = r.free ∧ m + pages.length < 2 ^ 15) := by
  induction pages generalizing r m created with
  | nil => exact .inr (.inr ⟨r, created, rfl, hadd, rfl, rfl, hm⟩)
  | cons page pages ih =>
    have hnone : r.chunk? (.nth id m) = none := habsent m le_rfl hm
    rcases Nat.eq_zero_or_pos r.free with hfull | hroom
    · -- the chunks created so far are taken out again
      refine .inr (.inl ⟨created.foldl Region.remove r, ?_, hadd.same h₀, by simp [hfull], by omega⟩)
      rw [createChunks, insert_full hadd.settled.sound hnone hfull]
    · obtain ⟨i, r₁, hins, hadd₁, hview, hfree, hcap⟩ := hadd.create hnone hroom (fillPage page)
      rw [createChunks, hins, List.length_cons]
      simp only [ChunkKey.next_nth id hm]
      by_cases hlast : m + 1 < 2 ^ 15
      · rw [if_pos hlast]
        have habsent₁ : ∀ j, m + 1 ≤ j → j < 2 ^ 15 →
            (r₁.writePage i (fillPage page)).chunk? (.nth id j) = none := by
          intro j hj hlt
          rw [hview, Function.update_of_ne, habsent j (by omega) hlt]
          intro he
          have := ((ChunkKey.nth_inj hlt hm).1 he).2
          omega
        have hih := ih hadd₁ hlast habsent₁
        rw [hcap] at hih
        rcases hih with ⟨he, hlen, hfr⟩ | ⟨r', he, hsame, hlen, hfr⟩ | ⟨r', created', he, hadd', hch, hfr, hlen⟩
        · exact .inl ⟨he, by omega, by omega⟩
        · exact .inr (.inl ⟨r', he, hsame, by omega, by omega⟩)
        · refine .inr (.inr ⟨r', created', he, hadd', ?_, by omega, by omega⟩)
          rw [hch, hview, List.map_cons, putPages]
      · -- the number after the last one is asked for even if no page is left
        rw [if_neg hlast]
        exact .inl ⟨rfl, by omega, by omega⟩

/-- A fold into an incarnation without chunks creates its chunks: either a chunk that there is room for has the
last number, or there is not room for all and the region stays as it was, or all the pages are put. -/
theorem fold_absent {r : Region} (h : r.Settled) {id : Identity}
    (habsent : ∀ m, 1 ≤ m → m < 2 ^ 15 → r.chunk? (.nth id m) = none) (o : Owner) (records : List Record) :
    (r.fold o id records = .error .addOverflow ∧ 2 ^ 15 ≤ 1 + chunksNeeded records.length ∧
      2 ^ 15 ≤ 1 + r.free) ∨
    (∃ r', r.fold o id records = .ok (.pure r' (.error (.exhausted r.capacity))) ∧ Same r r' ∧
      r.free < chunksNeeded records.length ∧ 1 + r.free < 2 ^ 15) ∨
    ∃ r' created, r.fold o id records = .ok (.pure r' (.ok ())) ∧ AddedTo r created r' ∧
      r'.chunk? = putPages r.chunk? id 1 ((pagesOf records).map fillPage) ∧
      r'.free + chunksNeeded records.length = r.free ∧ 1 + chunksNeeded records.length < 2 ^ 15 := by
  have hone : 1 < 2 ^ 15 := by norm_num
  have hfind : r.find? (.first id) = none := by
    have hfirst := habsent 1 le_rfl hone
    rwa [chunk?, Option.map_eq_none_iff] at hfirst
  have hcases := createChunks_cases (pagesOf records) h (.refl h) hone habsent
  rw [length_pagesOf, ← ChunkKey.first_eq_nth] at hcases
  rw [fold, hfind]
  dsimp only
  rcases hcases with ⟨hrun, hlength, hfree⟩ | ⟨r', hrun, hsame, hlength, hfree⟩ | ⟨r', created, hrun, hput⟩
  all_goals rw [hrun]
  · exact .inl ⟨rfl, hlength, hfree⟩
  · exact .inr (.inl ⟨r', rfl, hsame, hlength, hfree⟩)
  · exact .inr (.inr ⟨r', created, rfl, hput⟩)

/-! ### Merging chunks -/

/-- Pages with the slots of chunks `m`, `m + 1`, … that they are meant for. -/
structure Targets (r : Region) (id : Identity) (m : Nat) (pages : List (List Record))
    (writes : List (Nat × List Record)) : Prop where
  pages_eq : writes.map Prod.snd = pages
  holds : ∀ j i, (writes.map Prod.fst)[j]? = some i → r.chunks.Holds i (.nth id (m + j))

theorem Targets.cons {r : Region} {id : Identity} {m i : Nat} {page : List Record}
    {pages : List (List Record)} {writes : List (Nat × List Record)}
    (hi : r.chunks.Holds i (.nth id m)) (h : Targets r id (m + 1) pages writes) :
    Targets r id m (page :: pages) ((i, page) :: writes) where
  pages_eq := by rw [List.map_cons, h.pages_eq]
  holds j i' hj := by
    cases j with
    | zero => cases hj; exact hi
    | succ j =>
      rw [show m + (j + 1) = m + 1 + j by omega]
      exact h.holds j i' hj

/-- Writing pages puts them. -/
theorem writePages_eq {r : Region} (h : r.Sound) {id : Identity} {m : Nat} {pages : List (List Record)}
    {writes : List (Nat × List Record)} (ht : Targets r id m pages writes) :
    Rewritten r (r.writePages writes) ∧ (r.writePages writes).chunk? = putPages r.chunk? id m pages := by
  induction writes generalizing r m pages with
  | nil =>
    obtain rfl : [] = pages := ht.pages_eq
    exact ⟨.refl h, rfl⟩
  | cons w writes ih =>
    obtain ⟨i, page⟩ := w
    obtain rfl : page :: writes.map Prod.snd = pages := ht.pages_eq
    have hi : r.chunks.Holds i (.nth id m) := ht.holds 0 i rfl
    have ht' : Targets (r.writePage i page) id (m + 1) (writes.map Prod.snd) writes := by
      refine ⟨rfl, fun j i' hj => (r.chunks.holds_write i _ i' _).2 ?_⟩
      have := ht.holds (j + 1) i' hj
      rwa [show m + (j + 1) = m + 1 + j by omega] at this
    obtain ⟨hrest, hview⟩ := ih (h.writePage i page) ht'
    refine ⟨(rewritten_writePage h i page).trans hrest, ?_⟩
    rw [putPages, ← chunk?_writePage h hi, ← hview]
    rfl

/-- Chunks `m`, `m + 1`, … of an incarnation hold these pages, and there are no further ones. -/
def Chain (r : Region) (id : Identity) (m : Nat) (pages : List (List Record)) : Prop :=
  ∀ j, m + j < 2 ^ 15 → r.chunk? (.nth id (m + j)) = pages[j]?

theorem Chain.tail {r : Region} {id : Identity} {m : Nat} {page : List Record} {pages : List (List Record)}
    (h : Chain r id m (page :: pages)) : Chain r id (m + 1) pages := by
  intro j hj
  have := h (j + 1) (by omega)
  rwa [show m + (j + 1) = m + 1 + j by omega, List.getElem?_cons_succ] at this

/-- The slot of the first chunk of a chain. -/
theorem Chain.find?_head {r : Region} {id : Identity} {m : Nat} {page : List Record}
    {pages : List (List Record)} (h : Chain r id m (page :: pages)) (hs : r.Sound) (hm : m < 2 ^ 15) :
    ∃ i, r.find? (.nth id m) = some i ∧ r.chunks.Holds i (.nth id m) ∧ r.page i = page := by
  obtain ⟨i, hi, hp⟩ := (chunk?_eq_some_iff hs).1 (h 0 hm)
  exact ⟨i, (Table.find?_eq_some_iff hs.chunks.sound).2 hi, hi, hp⟩

theorem Chain.page_head {r : Region} {id : Identity} {m i : Nat} {page : List Record}
    {pages : List (List Record)} (h : Chain r id m (page :: pages)) (hm : m < 2 ^ 15)
    (hi : r.find? (.nth id m) = some i) : r.page i = page := by
  have hsome : r.chunk? (.nth id m) = some page := h 0 hm
  rw [chunk?, hi] at hsome
  exact Option.some.inj hsome

theorem Chain.find?_nil {r : Region} {id : Identity} {m : Nat} (h : Chain r id m []) (hm : m < 2 ^ 15) :
    r.find? (.nth id m) = none := by
  have hnone : r.chunk? (.nth id m) = none := h 0 hm
  rwa [chunk?, Option.map_eq_none_iff] at hnone

theorem mergedPages_last {r : Region} {id : Identity} {m i : Nat} (page : List Record) (hm : m + 1 < 2 ^ 15)
    (hnone : r.find? (.nth id (m + 1)) = none) :
    r.mergedPages page [] (.nth id m) i = (do
      let merged ← mergePage (r.page i) page
      return [(i, merged)]) := by
  rw [mergedPages, ChunkKey.next_nth id (by omega), if_pos hm]
  simp only [Stop.ofFault_ok, bind, Except.bind, hnone, Option.isSome_none, Bool.false_eq_true, if_false]

theorem mergedPages_cons {r : Region} {id : Identity} {m i j : Nat} (page page' : List Record)
    (pages : List (List Record)) (hm : m + 1 < 2 ^ 15) (hj : r.find? (.nth id (m + 1)) = some j) :
    r.mergedPages page (page' :: pages) (.nth id m) i = (do
      let merged ← mergePage (r.page i) page
      let rest ← r.mergedPages page' pages (.nth id (m + 1)) j
      return (i, merged) :: rest) := by
  rw [mergedPages, ChunkKey.next_nth id (by omega), if_pos hm]
  simp only [Stop.ofFault_ok, bind, Except.bind, hj]

/-- A call over the lines of a stored profile is merged as a whole, unless a sum overflows. -/
theorem mergedPages_of_lines {r : Region} (h : r.Sound) {id : Identity} {m n i : Nat}
    {stored call : List Record} (hchain : Chain r id m ((cutPages (n + 1) stored).map fillPage))
    (hi : r.find? (.nth id m) = some i) (hm : m + (n + 1) < 2 ^ 15)
    (hlen : stored.length ≤ recordsPerChunk * (n + 1))
    (hlines : call.map Record.line = stored.map Record.line) :
    (∃ f, mergeRecords stored call = .error f ∧
      r.mergedPages (call.take recordsPerChunk) (cutPages n (call.drop recordsPerChunk)) (.nth id m) i =
        .error (.fault f)) ∨
    ∃ merged writes, mergeRecords stored call = .ok merged ∧
      r.mergedPages (call.take recordsPerChunk) (cutPages n (call.drop recordsPerChunk)) (.nth id m) i =
        .ok writes ∧
      Targets r id m ((cutPages (n + 1) merged).map fillPage) writes := by
  have hcalls : call.length = stored.length := by simpa using congrArg List.length hlines
  have hholds : r.chunks.Holds i (.nth id m) := (Table.find?_eq_some_iff h.chunks.sound).1 hi
  -- on the number of pages after the first; the pages to be written are collected before any is written
  induction n generalizing m i stored call with
  | zero =>
    have hpage : r.page i = fillPage (stored.take recordsPerChunk) := hchain.page_head (by omega) hi
    rw [List.take_of_length_le (by omega)] at hpage
    rw [cutPages, mergedPages_last _ hm (hchain.tail.find?_nil hm), hpage,
      List.take_of_length_le (by omega), mergePage_fillPage hlines]
    cases hmerge : mergeRecords stored call with
    | error f => exact .inl ⟨f, rfl, rfl⟩
    | ok merged =>
      have hfull := length_mergeRecords hcalls hmerge
      refine .inr ⟨merged, [(i, fillPage merged)], rfl, rfl, ?_⟩
      rw [cutPages, cutPages, List.take_of_length_le (by omega)]
      exact .cons hholds ⟨rfl, by simp⟩
  | succ n ih =>
    have hpage : r.page i = fillPage (stored.take recordsPerChunk) := hchain.page_head (by omega) hi
    obtain ⟨j, hj, hholds', -⟩ := hchain.tail.find?_head h (by omega)
    have hfronts : (call.take recordsPerChunk).map Record.line =
        (stored.take recordsPerChunk).map Record.line := by rw [List.map_take, hlines, List.map_take]
    have hbacks : (call.drop recordsPerChunk).map Record.line =
        (stored.drop recordsPerChunk).map Record.line := by rw [List.map_drop, hlines, List.map_drop]
    have hlen' : (stored.drop recordsPerChunk).length ≤ recordsPerChunk * (n + 1) := by
      rw [Nat.mul_succ] at hlen
      rw [List.length_drop]
      omega
    rw [cutPages, mergedPages_cons _ _ _ (by omega) hj, hpage, mergePage_fillPage hfronts]
    have hsplit := mergeRecords_take_drop recordsPerChunk stored call
    cases hfront : mergeRecords (stored.take recordsPerChunk) (call.take recordsPerChunk) with
    | error f =>
      rw [hfront] at hsplit
      exact .inl ⟨f, hsplit, rfl⟩
    | ok front =>
      rw [hfront] at hsplit
      rcases ih hchain.tail hj (by omega) hlen' hbacks (by simp [hcalls]) hholds' with
        ⟨f, hf, he⟩ | ⟨back, writes, hback, hwrites, ht⟩
      · rw [hf] at hsplit
        rw [he]
        exact .inl ⟨f, hsplit, rfl⟩
      · rw [hback] at hsplit
        rw [hwrites]
        refine .inr ⟨front ++ back, (i, fillPage front) :: writes, hsplit, rfl, ?_⟩
        have htake := mergeRecords_take recordsPerChunk hsplit
        have hdrop := mergeRecords_drop recordsPerChunk hsplit
        rw [hfront, Except.ok.injEq] at htake
        rw [hback, Except.ok.injEq] at hdrop
        rw [cutPages, ← htake, ← hdrop]
        exact .cons hholds ht

theorem of_mergedPages_last {r : Region} {id : Identity} {m i : Nat} {page : List Record}
    {writes : List (Nat × List Record)} (hm : m < 2 ^ 15)
    (hok : r.mergedPages page [] (.nth id m) i = .ok writes) :
    (∃ merged, mergePage (r.page i) page = .ok merged) ∧ m + 1 < 2 ^ 15 ∧
      r.find? (.nth id (m + 1)) = none := by
  rw [mergedPages, bind_eq_ok_iff] at hok
  obtain ⟨merged, hmerged, hok⟩ := hok
  obtain ⟨next, hnext, hok⟩ := bind_eq_ok_iff.1 hok
  rw [Stop.ofFault_eq_ok_iff, ChunkKey.next_nth id hm] at hnext
  split_ifs at hnext with hlast
  cases hnext
  split_ifs at hok with hsome
  exact ⟨⟨merged, hmerged⟩, hlast, Option.not_isSome_iff_eq_none.1 hsome⟩

theorem of_mergedPages_cons {r : Region} {id : Identity} {m i : Nat} {page page' : List Record}
    {pages : List (List Record)} {writes : List (Nat × List Record)} (hm : m < 2 ^ 15)
    (hok : r.mergedPages page (page' :: pages) (.nth id m) i = .ok writes) :
    (∃ merged, mergePage (r.page i) page = .ok merged) ∧ m + 1 < 2 ^ 15 ∧
      ∃ j rest, r.find? (.nth id (m + 1)) = some j ∧
        r.mergedPages page' pages (.nth id (m + 1)) j = .ok rest := by
  rw [mergedPages, bind_eq_ok_iff] at hok
  obtain ⟨merged, hmerged, hok⟩ := hok
  obtain ⟨next, hnext, hok⟩ := bind_eq_ok_iff.1 hok
  rw [Stop.ofFault_eq_ok_iff, ChunkKey.next_nth id hm] at hnext
  split_ifs at hnext with hlast
  cases hnext
  cases hfind : r.find? (.nth id (m + 1)) with
  | none => rw [hfind] at hok; cases hok
  | some j =>
    rw [hfind] at hok
    obtain ⟨rest, hrest, -⟩ := bind_eq_ok_iff.1 hok
    exact ⟨⟨merged, hmerged⟩, hlast, j, rest, rfl, hrest⟩

theorem map_line_of_mergePage_take {stored call page : List Record}
    (hused : ∀ a ∈ stored, a.line ≠ Record.unusedLine) (hused' : ∀ b ∈ call, b.line ≠ Record.unusedLine)
    (h : mergePage (fillPage (stored.take recordsPerChunk)) (call.take recordsPerChunk) = .ok page) :
    (call.take recordsPerChunk).map Record.line = (stored.take recordsPerChunk).map Record.line := by
  refine map_line_of_mergePage (fun a ha => hused a (List.mem_of_mem_take ha))
    (fun b hb => hused' b (List.mem_of_mem_take hb)) ?_ h
  simp only [List.length_take]
  omega

/-- A call that is merged into a stored profile has its lines, if no line is the reserved one. -/
theorem lines_of_mergedPages {r : Region} (h : r.Sound) {id : Identity} {m k n i : Nat}
    {stored call : List Record} {writes : List (Nat × List Record)}
    (hchain : Chain r id m ((cutPages k stored).map fillPage)) (hi : r.find? (.nth id m) = some i)
    (hm : m < 2 ^ 15) (hstored : stored.length ≤ recordsPerChunk * k)
    (hcall : call.length ≤ recordsPerChunk * (n + 1))
    (hused : ∀ a ∈ stored, a.line ≠ Record.unusedLine) (hused' : ∀ b ∈ call, b.line ≠ Record.unusedLine)
    (hok : r.mergedPages (call.take recordsPerChunk) (cutPages n (call.drop recordsPerChunk)) (.nth id m) i =
      .ok writes) :
    call.map Record.line = stored.map Record.line := by
  induction n generalizing m k i stored call writes with
  | zero =>
    obtain ⟨⟨merged, hmerged⟩, hlast, hnone⟩ := of_mergedPages_last hm hok
    cases k with
    | zero => exact absurd (hchain.find?_nil hm) (by simp [hi])
    | succ k =>
      rw [hchain.page_head hm hi] at hmerged
      have hfront := map_line_of_mergePage_take hused hused' hmerged
      cases k with
      | zero =>
        rwa [List.take_of_length_le (by omega), List.take_of_length_le (by omega)] at hfront
      | succ k =>
        -- a chunk is stored behind the last page of the call, and the walk looks for one
        obtain ⟨j, hj, -⟩ := hchain.tail.find?_head h hlast
        exact absurd hnone (by simp [hj])
  | succ n ih =>
    obtain ⟨⟨merged, hmerged⟩, hlast, j, rest, hj, hrest⟩ := of_mergedPages_cons hm hok
    cases k with
    | zero => exact absurd (hchain.find?_nil hm) (by simp [hi])
    | succ k =>
      rw [hchain.page_head hm hi] at hmerged
      have hfront := map_line_of_mergePage_take hused hused' hmerged
      have hback := ih hchain.tail hj hlast (by rw [Nat.mul_succ] at hstored; simp; omega)
        (by rw [Nat.mul_succ] at hcall; simp; omega) (fun a ha => hused a (List.mem_of_mem_drop ha))
        (fun b hb => hused' b (List.mem_of_mem_drop hb)) hrest
      rw [← List.take_append_drop recordsPerChunk call, ← List.take_append_drop recordsPerChunk stored,
        List.map_append, List.map_append, hfront, hback]

/-- A record of a stored profile and one of a call cannot be merged: one of their sums is too large. -/
def MergeFaults (stored call : List Record) (f : Fault) : Prop :=
  ∃ (j : Nat) (x y : Record), stored[j]? = some x ∧ call[j]? = some y ∧ x.merge y = .error f

theorem fault_of_mergePage {page call : List Record} {f : Fault}
    (h : mergePage page call = .error (.fault f)) :
    ∃ (j : Nat) (x y : Record), page[j]? = some x ∧ call[j]? = some y ∧ x.line = y.line ∧
      x.merge y = .error f := by
  induction page generalizing call with
  | nil => cases h
  | cons x page ih =>
    cases call with
    | nil =>
      rw [mergePage] at h
      split_ifs at h
      cases h
    | cons y call =>
      rw [mergePage] at h
      split_ifs at h with hline
      · cases h
      · rcases bind_eq_error_iff.1 h with hmerge | ⟨merged, -, h⟩
        · refine ⟨0, x, y, rfl, rfl, not_not.1 hline, ?_⟩
          cases hxy : x.merge y with
          | ok z => rw [hxy] at hmerge; cases hmerge
          | error f' => rw [hxy] at hmerge; cases hmerge; rfl
        · rcases bind_eq_error_iff.1 h with hrest | ⟨rest, -, h⟩
          · obtain ⟨j, x', y', hx, hy, hlines, hmerge⟩ := ih hrest
            exact ⟨j + 1, x', y', hx, hy, hlines, hmerge⟩
          · cases h

/-- The first pages of a profile and of a call. -/
theorem fault_of_mergePage_take {stored call : List Record} {f : Fault}
    (hcall : ∀ b ∈ call, b.line ≠ Record.unusedLine)
    (h : mergePage (fillPage (stored.take recordsPerChunk)) (call.take recordsPerChunk) =
      .error (.fault f)) : MergeFaults stored call f := by
  obtain ⟨j, x, y, hx, hy, hline, hmerge⟩ := fault_of_mergePage h
  have hmem : y ∈ call := List.mem_of_mem_take (List.mem_of_getElem? hy)
  rw [List.getElem?_take] at hy
  split_ifs at hy with hj
  rw [getElem?_fillPage (by simp), if_pos hj, List.getElem?_take, if_pos hj, Option.some.injEq] at hx
  cases hstored : stored[j]? with
  | some x' =>
    rw [hstored, Option.getD_some] at hx
    exact ⟨j, x, y, hx ▸ hstored, hy, hmerge⟩
  | none =>
    -- a record that fills the page up has the reserved line, which no record of the call has
    rw [hstored, Option.getD_none] at hx
    exact absurd (hline.symm.trans (congrArg Record.line hx.symm)) (hcall y hmem)

theorem MergeFaults.of_drop {stored call : List Record} {f : Fault} {n : Nat}
    (h : MergeFaults (stored.drop n) (call.drop n) f) : MergeFaults stored call f := by
  obtain ⟨j, x, y, hx, hy, hmerge⟩ := h
  rw [List.getElem?_drop] at hx hy
  exact ⟨n + j, x, y, hx, hy, hmerge⟩

theorem MergeFaults.mono {stored stored' call : List Record} {f : Fault} (h : MergeFaults stored call f)
    (hbegins : stored <+: stored') : MergeFaults stored' call f := by
  obtain ⟨j, x, y, hx, hy, hmerge⟩ := h
  obtain ⟨hj, hget⟩ := List.getElem?_eq_some_iff.1 hx
  exact ⟨j, x, y, (List.prefix_iff_getElem?.1 hbegins j hj).trans (congrArg some hget), hy, hmerge⟩

/-- Merging a call into a stored profile faults only where two records cannot be merged. -/
theorem fault_of_mergedPages {r : Region} {id : Identity} {m k n i : Nat} {stored call : List Record}
    {f : Fault} (hchain : Chain r id m ((cutPages k stored).map fillPage))
    (hi : r.find? (.nth id m) = some i) (hm : m + k < 2 ^ 15)
    (hcall : ∀ b ∈ call, b.line ≠ Record.unusedLine)
    (herr : r.mergedPages (call.take recordsPerChunk) (cutPages n (call.drop recordsPerChunk)) (.nth id m) i =
      .error (.fault f)) : MergeFaults stored call f := by
  induction n generalizing m k i stored call with
  | zero =>
    cases k with
    | zero => exact absurd (hchain.find?_nil (by omega)) (by simp [hi])
    | succ k =>
      rw [cutPages, mergedPages, ChunkKey.next_nth id (by omega), if_pos (by omega),
        hchain.page_head (by omega) hi] at herr
      rcases bind_eq_error_iff.1 herr with hmerge | ⟨merged, -, herr⟩
      · exact fault_of_mergePage_take hcall hmerge
      · rw [Stop.ofFault_ok] at herr
        rcases bind_eq_error_iff.1 herr with hnext | ⟨next, -, herr⟩
        · cases hnext
        · split_ifs at herr <;> cases herr
  | succ n ih =>
    cases k with
    | zero => exact absurd (hchain.find?_nil (by omega)) (by simp [hi])
    | succ k =>
      rw [cutPages, mergedPages, ChunkKey.next_nth id (by omega), if_pos (by omega),
        hchain.page_head (by omega) hi] at herr
      rcases bind_eq_error_iff.1 herr with hmerge | ⟨merged, -, herr⟩
      · exact fault_of_mergePage_take hcall hmerge
      · rw [Stop.ofFault_ok] at herr
        rcases bind_eq_error_iff.1 herr with hnext | ⟨next, hnext, herr⟩
        · cases hnext
        · cases hnext
          cases hj : r.find? (.nth id (m + 1)) with
          | none =>
            rw [hj] at herr
            cases herr
          | some j =>
            rw [hj] at herr
            rcases bind_eq_error_iff.1 herr with hrest | ⟨rest, -, herr⟩
            · have hcall' : ∀ b ∈ call.drop recordsPerChunk, b.line ≠ Record.unusedLine :=
                fun b hb => hcall b (List.mem_of_mem_drop hb)
              exact .of_drop (ih hchain.tail hj (by omega) hcall' hrest)
            · cases herr

/-! ### Reading and removing chunks -/

/-- Reading along chunks gives their pages one after another. -/
theorem chainRecords_eq {r : Region} (h : r.Sound) {id : Identity} {m i fuel : Nat} {page : List Record}
    {pages : List (List Record)} (hchain : Chain r id m (page :: pages)) (hi : r.find? (.nth id m) = some i)
    (hm : m + (pages.length + 1) < 2 ^ 15) (hfuel : pages.length < fuel) :
    r.chainRecords fuel (.nth id m) i = .ok (page ++ pages.flatten) := by
  induction pages generalizing m i fuel page with
  | nil =>
    obtain ⟨fuel, rfl⟩ : ∃ n, fuel = n + 1 := ⟨fuel - 1, by omega⟩
    have hlast : m + 1 < 2 ^ 15 := hm
    have hnone : r.find? (.nth id (m + 1)) = none := hchain.tail.find?_nil hlast
    rw [chainRecords, ChunkKey.next_nth id (by omega), if_pos hlast, List.flatten_nil, List.append_nil,
      ← hchain.page_head (by omega) hi]
    simp only [bind, Except.bind, hnone]
    rfl
  | cons page' pages ih =>
    obtain ⟨fuel, rfl⟩ : ∃ n, fuel = n + 1 := ⟨fuel - 1, by omega⟩
    rw [List.length_cons] at hm hfuel
    obtain ⟨j, hj, -⟩ := hchain.tail.find?_head h (by omega)
    rw [chainRecords, ChunkKey.next_nth id (by omega), if_pos (by omega), List.flatten_cons,
      ← hchain.page_head (by omega) hi]
    simp only [bind, Except.bind, hj]
    rw [ih hchain.tail hj (by omega) (by omega)]
    rfl

/-- Removing along chunks removes those that follow each other, up to the first number without a chunk. -/
theorem removeChain_eq {r : Region} (h : r.Settled) {id : Identity} {m k fuel : Nat}
    (hstored : ∀ j < k, r.chunk? (.nth id (m + j)) ≠ none) (hgap : r.chunk? (.nth id (m + k)) = none)
    (hm : m + k < 2 ^ 15) (hfuel : k < fuel) (removed : Nat) :
    ∃ slots : List Nat, removeChain fuel (.nth id m) removed r =
        .ok (slots.foldl Region.remove r, removed + k) ∧
      ∀ i key, r.chunks.Holds i key → (i ∈ slots ↔ ∃ j < k, key = .nth id (m + j)) := by
  induction k generalizing r m fuel removed with
  | zero =>
    obtain ⟨fuel, rfl⟩ : ∃ n, fuel = n + 1 := ⟨fuel - 1, by omega⟩
    have hnone : r.find? (.nth id m) = none := by rwa [chunk?, Option.map_eq_none_iff] at hgap
    refine ⟨[], ?_, fun i key _ => by simp⟩
    rw [removeChain, hnone]
    rfl
  | succ k ih =>
    obtain ⟨fuel, rfl⟩ : ∃ n, fuel = n + 1 := ⟨fuel - 1, by omega⟩
    obtain ⟨page, hpage⟩ := Option.ne_none_iff_exists'.1 (hstored 0 (by omega))
    obtain ⟨i, hholds, -⟩ := (chunk?_eq_some_iff h.sound).1 hpage
    have hi : r.find? (.nth id m) = some i := (Table.find?_eq_some_iff h.sound.chunks.sound).2 hholds
    have hleft : ∀ j key, (r.remove i).chunks.Holds j key ↔ i ≠ j ∧ r.chunks.Holds j key := by
      intro j key
      rw [chunks_remove, Table.holds_remove]
    -- the slot that goes is not one of the chunks after it
    have hlater : ∀ j ≤ k, (r.remove i).chunk? (.nth id (m + 1 + j)) = r.chunk? (.nth id (m + (j + 1))) := by
      intro j hj
      rw [show m + (j + 1) = m + 1 + j by omega]
      refine chunk?_congr h.sound (h.sound.remove i) (fun j' => (hleft j' _).trans ?_)
        fun j' _ => r.page_remove i j'
      refine and_iff_right_of_imp fun hj' hij => ?_
      have := ((ChunkKey.nth_inj (by omega) (by omega)).1 (hj'.key_unique (hij ▸ hholds))).2
      omega
    obtain ⟨slots, he, hslots⟩ := ih (h.remove i)
      (fun j hj => by rw [hlater j (by omega)]; exact hstored (j + 1) (by omega))
      ((hlater k le_rfl).trans hgap) (by omega) (by omega : k < fuel) (removed + 1)
    refine ⟨i :: slots, ?_, fun j key hj => ?_⟩
    · rw [removeChain, hi]
      simp only [ChunkKey.next_nth id (by omega : m < 2 ^ 15), if_pos (by omega : m + 1 < 2 ^ 15), bind,
        Except.bind]
      rw [he, List.foldl_cons, Nat.add_assoc, Nat.add_comm 1]
    · rw [List.mem_cons]
      by_cases hij : j = i
      · subst hij
        exact iff_of_true (.inl rfl) ⟨0, by omega, hj.key_unique hholds⟩
      · rw [or_iff_right hij, hslots j key ((hleft j key).2 ⟨Ne.symm hij, hj⟩)]
        constructor
        · rintro ⟨k', hk, rfl⟩
          exact ⟨k' + 1, by omega, by rw [Nat.add_assoc, Nat.add_comm 1]⟩
        · rintro ⟨k', hk, rfl⟩
          cases k' with
          | zero => exact absurd (h.sound.chunks.sound.unique hj hholds) hij
          | succ k' => exact ⟨k', by omega, by rw [Nat.add_assoc, Nat.add_comm 1]⟩

end Region

end ProcProfile
