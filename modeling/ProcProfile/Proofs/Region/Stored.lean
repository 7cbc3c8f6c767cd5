import Mathlib.Tactic
import ProcProfile.Proofs.Region.Walks

/-!
# Stored profiles

A region that is only folded into and reset holds whole profiles: `Stores r a` says that the chunks of the
region `r` are exactly the pages of the profiles `a`.  Folding and resetting are operations on `a`.

* `Stores`: the profiles that a region holds;
* `Stores.fold_new`, `Stores.fold_lines`, `Stores.fold_cases`: the first call of an incarnation, a call
  over the stored lines, and any further call;
* `Stores.fold_fault`: why a further call may give no answer;
* `Stores.reset`: what a reset leaves.
-/

namespace ProcProfile

/-- The profiles of incarnations. -/
abbrev Profiles := Identity → Option (List Record)

/-- Whether a reset removes the profile of an incarnation. -/
def ResetScope.covers : ResetScope → Identity → Bool
  | .all, _ => true
  | .incarnation id, id' => id' == id
  | .unit key, id' => id'.unitKey == key

/-- What a reset leaves of profiles, or of anything else that is kept for each incarnation. -/
def ResetScope.clear {α : Type} (scope : ResetScope) (a : Identity → Option α) (id : Identity) : Option α :=
  if scope.covers id then none else a id

namespace Region

/-- The pages of an incarnation that has one of these profiles. -/
def pagesFor (a : Profiles) (id : Identity) : List (List Record) :=
  (a id).elim [] fun records => (pagesOf records).map fillPage

theorem pagesFor_none {a : Profiles} {id : Identity} (hid : a id = none) : pagesFor a id = [] := by
  rw [pagesFor, hid, Option.elim_none]

theorem pagesFor_some {a : Profiles} {id : Identity} {records : List Record} (hid : a id = some records) :
    pagesFor a id = (pagesOf records).map fillPage := by
  rw [pagesFor, hid, Option.elim_some]

theorem length_pagesFor {a : Profiles} {id : Identity} {records : List Record} (hid : a id = some records) :
    (pagesFor a id).length = chunksNeeded records.length := by
  rw [pagesFor_some hid, List.length_map, length_pagesOf]

/-- The page of a chunk if the incarnations have these profiles. -/
def pageFor (a : Profiles) (key : ChunkKey) : Option (List Record) :=
  if key.filler = 0 ∧ 1 ≤ key.number.toInt then (pagesFor a key.identity)[key.number.toInt.toNat - 1]?
  else none

theorem pageFor_nth (a : Profiles) (id : Identity) {j : Nat} (hj : j + 1 < 2 ^ 15) :
    pageFor a (.nth id (j + 1)) = (pagesFor a id)[j]? := by
  unfold pageFor
  rw [ChunkKey.toInt_number_nth id hj, if_pos ⟨rfl, by omega⟩, ChunkKey.identity_nth]
  simp

/-- A chunk with a page has the number of the page. -/
theorem pageFor_eq_some {a : Profiles} {key : ChunkKey} {page : List Record} (h : pageFor a key = some page) :
    ∃ j, j + 1 < 2 ^ 15 ∧ key = .nth key.identity (j + 1) ∧ (pagesFor a key.identity)[j]? = some page := by
  unfold pageFor at h
  split_ifs at h with hkey
  have hlt := key.number.toInt_lt
  refine ⟨key.number.toInt.toNat - 1, by omega, ?_, h⟩
  rw [show key.number.toInt.toNat - 1 + 1 = key.number.toInt.toNat by omega]
  exact ChunkKey.eq_nth hkey.1 (by omega)

/-- Putting the pages of a profile that needs no fewer chunks than the one before it. -/
theorem putPages_pageFor {a : Profiles} {id : Identity} {records : List Record}
    (hbound : chunksNeeded records.length + 1 ≤ 2 ^ 15)
    (hold : (pagesFor a id).length ≤ chunksNeeded records.length) :
    putPages (pageFor a) id 1 ((pagesOf records).map fillPage) =
      pageFor (Function.update a id (some records)) := by
  have hnew : pagesFor (Function.update a id (some records)) id = (pagesOf records).map fillPage :=
    pagesFor_some (Function.update_self id (some records) a)
  have hlen : ((pagesOf records).map fillPage).length = chunksNeeded records.length := by
    rw [List.length_map, length_pagesOf]
  funext key
  by_cases hput : ∃ j < chunksNeeded records.length, key = .nth id (1 + j)
  · obtain ⟨j, hj, rfl⟩ := hput
    rw [putPages_nth (by omega) (by omega), Nat.add_comm 1 j, pageFor_nth _ _ (by omega), hnew]
  · rw [putPages_of_ne fun j hj he => hput ⟨j, by omega, he⟩]
    by_cases hid : key.identity = id
    · -- neither profile has a page of this number
      have hnone : ∀ b : Profiles, (pagesFor b id).length ≤ chunksNeeded records.length →
          pageFor b key = none := by
        intro b hb
        rw [Option.eq_none_iff_forall_ne_some]
        intro page hpage
        obtain ⟨j, hj, hkey, hget⟩ := pageFor_eq_some hpage
        rw [hid] at hkey hget
        have hlt := (List.getElem?_eq_some_iff.1 hget).1
        exact hput ⟨j, by omega, by rw [hkey, Nat.add_comm]⟩
      rw [hnone a hold, hnone _ (by rw [hnew, hlen])]
    · unfold pageFor pagesFor
      rw [Function.update_of_ne hid]

/-- The chunks of a region are the pages of these profiles, and the chunk number after the last one of each
is still a number. -/
structure Stores (r : Region) (a : Profiles) : Prop where
  settled : r.Settled
  chunk?_eq : r.chunk? = pageFor a
  bounded : ∀ id, (pagesFor a id).length + 1 < 2 ^ 15

namespace Stores

variable {r : Region} {a : Profiles} {id : Identity}

theorem create (capacity unitCapacity : UInt64) :
    Stores (Region.create capacity unitCapacity) fun _ => none where
  settled := settled_create capacity unitCapacity
  chunk?_eq := by
    funext key
    rw [chunk?_create, pageFor]
    split_ifs <;> rfl
  bounded id := by
    rw [pagesFor_none rfl]
    norm_num

theorem of_same {r' : Region} (h : Stores r a) (hs : Same r r') : Stores r' a :=
  ⟨hs.settled, (hs.chunk?_eq h.settled.sound).trans h.chunk?_eq, h.bounded⟩

theorem chain (h : Stores r a) (id : Identity) : Chain r id 1 (pagesFor a id) := by
  intro j hj
  rw [h.chunk?_eq, Nat.add_comm, pageFor_nth a id (by omega)]

theorem find?_first_absent (h : Stores r a) (hid : a id = none) : r.find? (.first id) = none := by
  have hchain := h.chain id
  rw [pagesFor_none hid] at hchain
  exact hchain.find?_nil (by norm_num)

theorem pagesFor_ne_nil {stored : List Record} (hid : a id = some stored) : pagesFor a id ≠ [] := by
  rw [← List.length_pos_iff, length_pagesFor hid]
  exact chunksNeeded_pos _

/-- The slot of chunk 1 of a stored profile. -/
theorem find?_first (h : Stores r a) {stored : List Record} (hid : a id = some stored) :
    ∃ i, r.find? (.first id) = some i ∧ r.chunks.isUsed i = true := by
  have hchain := h.chain id
  obtain ⟨page, pages, hpages⟩ := List.exists_cons_of_ne_nil (pagesFor_ne_nil hid)
  rw [hpages] at hchain
  obtain ⟨i, hi, hholds, -⟩ := hchain.find?_head h.settled.sound (by norm_num)
  exact ⟨i, hi, hholds.1⟩

/-! ### Folding -/

theorem bounded_update (h : Stores r a) {records : List Record}
    (hbound : chunksNeeded records.length + 1 < 2 ^ 15) (id' : Identity) :
    (pagesFor (Function.update a id (some records)) id').length + 1 < 2 ^ 15 := by
  by_cases hne : id' = id
  · subst hne
    rwa [length_pagesFor (Function.update_self id' (some records) a)]
  · rw [pagesFor, Function.update_of_ne hne]
    exact h.bounded id'

/-- The first call of an incarnation: either a chunk that there is room for has the last number, or there
is not room for all chunks and the region stays as it was, or the call becomes the profile. -/
theorem fold_new (h : Stores r a) (hid : a id = none) (o : Owner) (records : List Record) :
    (r.fold o id records = .error .addOverflow ∧ 2 ^ 15 ≤ 1 + chunksNeeded records.length ∧
      2 ^ 15 ≤ 1 + r.free) ∨
    (∃ r', r.fold o id records = .ok (.pure r' (.error (.exhausted r.capacity))) ∧ Same r r' ∧
      r.free < chunksNeeded records.length ∧ 1 + r.free < 2 ^ 15) ∨
    (∃ r', r.fold o id records = .ok (.pure r' (.ok ())) ∧
      Stores r' (Function.update a id (some records)) ∧
      r'.free + chunksNeeded records.length = r.free ∧ 1 + chunksNeeded records.length < 2 ^ 15 ∧
      r'.capacity = r.capacity ∧ r'.units = r.units ∧
      r'.header = { r.header with used := r'.header.used }) := by
  have habsent : ∀ m, 1 ≤ m → m < 2 ^ 15 → r.chunk? (.nth id m) = none := by
    intro m hm hlt
    have hnone := h.chain id (m - 1) (by omega)
    rwa [pagesFor_none hid, show 1 + (m - 1) = m by omega, List.getElem?_nil] at hnone
  rcases fold_absent h.settled habsent o records with hlast | hfull | ⟨r', created, he, hadd, hview, hfree, hlen⟩
  · exact .inl hlast
  · exact .inr (.inl hfull)
  · refine .inr (.inr ⟨r', he, ⟨hadd.settled, ?_, h.bounded_update (by omega)⟩, hfree, hlen, hadd.size,
      hadd.units, hadd.header⟩)
    rw [hview, h.chunk?_eq, putPages_pageFor (by omega) (by simp [pagesFor_none hid])]

/-- Folding into a stored profile merges the pages under the lock of chunk 1. -/
theorem fold_eq (h : r.Settled) {i n : Nat} (hi : r.find? (.first id) = some i) (o : Owner)
    {records : List Record} (hn : chunksNeeded records.length = n + 1) :
    r.fold o id records =
      match (r.relock i o.id).mergedPages (records.take recordsPerChunk)
          (cutPages n (records.drop recordsPerChunk)) (.nth id 1) i with
      | .ok writes => .ok ⟨((r.relock i o.id).writePages writes).relock i 0, [], .ok ()⟩
      | .error (.error e) => .ok ⟨(r.relock i o.id).relock i 0, [], .error e⟩
      | .error (.fault f) => .error f := by
  have hused := ((Table.find?_eq_some_iff h.sound.chunks.sound).1 hi).1
  rw [fold, hi]
  simp only [withChunk_eq h hused]
  rw [mergeInto, pagesOf, hn, cutPages, ChunkKey.first_eq_nth]
  dsimp only
  cases (r.relock i o.id).mergedPages (records.take recordsPerChunk)
      (cutPages n (records.drop recordsPerChunk)) (.nth id 1) i with
  | ok writes => rfl
  | error s => cases s <;> rfl

theorem relock_find?_first (h : r.Sound) {i : Nat} (hi : r.find? (.first id) = some i) (word : UInt32) :
    (r.relock i word).find? (.nth id 1) = some i := by
  refine (Table.find?_eq_some_iff (h.relock i word).chunks.sound).2 ?_
  exact (r.holds_relock i word i _).2 ((Table.find?_eq_some_iff h.chunks.sound).1 hi)

theorem relock_chain (h : Stores r a) {stored : List Record} (hid : a id = some stored) (i : Nat)
    (word : UInt32) : Chain (r.relock i word) id 1 ((pagesOf stored).map fillPage) := by
  intro j hj
  rw [chunk?_relock h.settled.sound, ← pagesFor_some hid]
  exact h.chain id j hj

/-- A call over the stored lines is merged, unless a sum overflows. -/
theorem fold_lines (h : Stores r a) {stored : List Record} (hid : a id = some stored) (o : Owner)
    {records : List Record} (hlines : records.map Record.line = stored.map Record.line) :
    (∃ f, mergeRecords stored records = .error f ∧ r.fold o id records = .error f) ∨
    ∃ merged r', mergeRecords stored records = .ok merged ∧ r.fold o id records = .ok ⟨r', [], .ok ()⟩ ∧
      Stores r' (Function.update a id (some merged)) ∧ Rewritten r r' := by
  have hlen : records.length = stored.length := by simpa using congrArg List.length hlines
  obtain ⟨i, hi, hused⟩ := h.find?_first hid
  obtain ⟨n, hn⟩ : ∃ n, chunksNeeded stored.length = n + 1 :=
    ⟨_, (Nat.succ_pred_eq_of_pos (chunksNeeded_pos _)).symm⟩
  have hbound := h.bounded id
  rw [length_pagesFor hid] at hbound
  have hchain := h.relock_chain hid i o.id
  rw [pagesOf, hn] at hchain
  have hle := length_le_chunksNeeded stored.length
  rw [hn] at hle
  rw [fold_eq h.settled hi o (hlen ▸ hn)]
  rcases mergedPages_of_lines (h.settled.sound.relock i o.id) hchain
    (relock_find?_first h.settled.sound hi o.id) (by omega) hle hlines with
    ⟨f, hf, he⟩ | ⟨merged, writes, hmerged, he, ht⟩
  · exact .inl ⟨f, hf, by rw [he]⟩
  · have hlen' : merged.length = stored.length := length_mergeRecords hlen hmerged
    obtain ⟨hrw, hview⟩ := writePages_eq (h.settled.sound.relock i o.id) ht
    have hrw' := hrw.unlock h.settled hused
    refine .inr ⟨merged, _, hmerged, by rw [he],
      ⟨hrw'.settled h.settled, ?_, h.bounded_update (by rwa [hlen'])⟩, hrw'⟩
    rw [chunk?_relock hrw.sound, hview, chunk?_relock h.settled.sound, h.chunk?_eq, ← hn, ← hlen',
      ← pagesOf, putPages_pageFor (by rw [hlen']; omega) (by rw [length_pagesFor hid, hlen'])]

/-- A call of an incarnation with a profile either faults, or leaves everything as it was, or runs over
the stored lines. -/
theorem fold_cases (h : Stores r a) {stored : List Record} (hid : a id = some stored) (o : Owner)
    {records : List Record} (hstored : ∀ s ∈ stored, s.line ≠ Record.unusedLine)
    (hcall : ∀ c ∈ records, c.line ≠ Record.unusedLine) :
    (∃ f, r.fold o id records = .error f) ∨
    (∃ r' e, r.fold o id records = .ok ⟨r', [], .error e⟩ ∧ Same r r') ∨
    records.map Record.line = stored.map Record.line := by
  obtain ⟨i, hi, hused⟩ := h.find?_first hid
  obtain ⟨n, hn⟩ : ∃ n, chunksNeeded records.length = n + 1 :=
    ⟨_, (Nat.succ_pred_eq_of_pos (chunksNeeded_pos _)).symm⟩
  have hle := length_le_chunksNeeded records.length
  rw [hn] at hle
  rw [fold_eq h.settled hi o hn]
  cases hok : (r.relock i o.id).mergedPages (records.take recordsPerChunk)
      (cutPages n (records.drop recordsPerChunk)) (.nth id 1) i with
  | ok writes =>
    exact .inr (.inr (lines_of_mergedPages (h.settled.sound.relock i o.id) (h.relock_chain hid i o.id)
      (relock_find?_first h.settled.sound hi o.id) (by norm_num) (length_le_chunksNeeded _) hle hstored
      hcall hok))
  | error s =>
    cases s with
    | fault f => exact .inl ⟨f, rfl⟩
    | error e =>
      have hrw := (Rewritten.refl (h.settled.sound.relock i o.id)).unlock h.settled hused
      exact .inr (.inl ⟨_, e, rfl, hrw.same h.settled fun j => by rw [page_relock, page_relock]⟩)

/-- A call of an incarnation with a profile faults only if one of its records cannot be merged. -/
theorem fold_fault (h : Stores r a) {stored : List Record} (hid : a id = some stored) {o : Owner}
    {records : List Record} (hcall : ∀ c ∈ records, c.line ≠ Record.unusedLine) {f : Fault}
    (hrun : r.fold o id records = .error f) : MergeFaults stored records f := by
  obtain ⟨i, hi, -⟩ := h.find?_first hid
  obtain ⟨n, hn⟩ : ∃ n, chunksNeeded records.length = n + 1 :=
    ⟨_, (Nat.succ_pred_eq_of_pos (chunksNeeded_pos _)).symm⟩
  have hbound := h.bounded id
  rw [length_pagesFor hid] at hbound
  rw [fold_eq h.settled hi o hn] at hrun
  split at hrun
  · cases hrun
  · cases hrun
  · rename_i hfault
    cases hrun
    exact fault_of_mergedPages (h.relock_chain hid i o.id) (relock_find?_first h.settled.sound hi o.id)
      (by omega) hcall hfault

/-! ### Resetting -/

/-- The profiles that are left after the chunks of some incarnations are removed. -/
theorem of_removedFrom (h : Stores r a) {slots : List Nat} {r' : Region} (hr : RemovedFrom r slots r')
    (scope : ResetScope)
    (hslots : ∀ i key, r.chunks.Holds i key → (i ∈ slots ↔ scope.covers key.identity = true)) :
    Stores r' (scope.clear a) where
  settled := hr.settled
  chunk?_eq := by
    funext key
    rw [hr.chunk?_eq h.settled.sound (fun key => scope.covers key.identity = true) hslots key, h.chunk?_eq]
    unfold pageFor pagesFor ResetScope.clear
    split_ifs <;> rfl
  bounded id := by
    have hbound := h.bounded id
    unfold pagesFor ResetScope.clear at *
    split_ifs
    · norm_num
    · exact hbound

/-- A reset always gives an answer, and leaves the profiles of the other incarnations. -/
theorem reset (h : Stores r a) (scope : ResetScope) :
    ∃ r' n, r.reset scope = .ok (r', n) ∧ Stores r' (scope.clear a) ∧ r'.capacity = r.capacity := by
  cases scope with
  | all =>
    refine ⟨r.clear, _, rfl, ⟨h.settled.clear, ?_, fun id => by rw [pagesFor_none rfl]; norm_num⟩,
      Table.size_clear r.chunks⟩
    funext key
    rw [chunk?_clear h.settled.sound, pageFor, pagesFor_none rfl, List.getElem?_nil, ite_self]
  | incarnation id =>
    have hlen := h.bounded id
    obtain ⟨slots, he, hslots⟩ := removeChain_eq h.settled (k := (pagesFor a id).length)
      (fun j hj => by
        rw [h.chain id j (by omega), List.getElem?_eq_getElem hj]
        exact Option.some_ne_none _)
      (by rw [h.chain id _ (by omega), List.getElem?_eq_none le_rfl]) (by omega)
      (by unfold chunkNumberBound; omega : (pagesFor a id).length < chunkNumberBound) 0
    have hr := removedFrom_foldl h.settled slots
    refine ⟨_, _, he, h.of_removedFrom hr _ fun i key hi => ?_, hr.size⟩
    rw [hslots i key hi, ResetScope.covers, beq_iff_eq]
    constructor
    · rintro ⟨j, -, rfl⟩
      rfl
    · intro hid
      -- every stored chunk of the incarnation is one of the chain
      have hpage := chunk?_of_holds h.settled.sound hi
      rw [h.chunk?_eq] at hpage
      obtain ⟨j, hj, hkey, hget⟩ := pageFor_eq_some hpage
      rw [hid] at hkey hget
      exact ⟨j, (List.getElem?_eq_some_iff.1 hget).1, by rw [hkey, Nat.add_comm]⟩
  | unit unit =>
    have hr := removedFrom_foldl h.settled (r.chunks.indices fun key => key.identity.unitKey == unit)
    refine ⟨_, _, rfl, h.of_removedFrom hr _ fun i key hi => ?_, hr.size⟩
    rw [Table.mem_indices, hi.2, ResetScope.covers]
    exact and_iff_right hi.1

end Stores

end Region

end ProcProfile
