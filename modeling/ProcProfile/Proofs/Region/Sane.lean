import Mathlib.Tactic
import ProcProfile.Proofs.Region.Failures
import ProcProfile.Proofs.Tally.Sane

/-!
# Stored counters that fit together

A region whose records fit together keeps them so, as long as only such records are folded into it.  A new
chunk holds what the call counted and unused records, and a merged one holds sums of both.

* `Region.Sane`: every stored record has counters that fit together;
* `Sane.createChunks`, `sane_mergedPages`: the two ways in which a fold writes records;
* `Sane.fold`, `Sane.reset`: the operations that change chunks.
-/

namespace ProcProfile

theorem mem_of_mem_cutPages {n : Nat} {records page : List Record} {x : Record}
    (hpage : page ∈ cutPages n records) (hx : x ∈ page) : x ∈ records := by
  obtain ⟨j, hj⟩ := List.mem_iff_getElem?.1 hpage
  rw [getElem?_cutPages] at hj
  split_ifs at hj
  cases hj
  exact List.mem_of_mem_drop (List.mem_of_mem_take hx)

namespace Region

variable {r r' : Region}

/-- A list of records with counters that fit together. -/
def SanePage (page : List Record) : Prop := ∀ x ∈ page, x.Sane

/-- A region in which the counters of every stored record fit together. -/
def Sane (r : Region) : Prop := ∀ i, r.chunks.isUsed i = true → SanePage (r.page i)

theorem sanePage_unused : SanePage Page.unused.records := by
  intro x hx
  rw [(List.mem_replicate.1 hx).2]
  exact Record.sane_ofLine _

theorem SanePage.fillPage {page : List Record} (h : SanePage page) : SanePage (fillPage page) := by
  intro x hx
  rcases List.mem_append.1 hx with hx | hx
  · exact h x hx
  · rw [(List.mem_replicate.1 hx).2]
    exact Record.sane_ofLine _

theorem sane_create (capacity unitCapacity : UInt64) : (create capacity unitCapacity).Sane :=
  fun i hi => absurd ⟨hi, rfl⟩ (Table.not_holds_new capacity.toNat i _)

/-- What a dump shows of such a region. -/
theorem Sane.dump (h : r.Sane) (hs : r.Sound) {chunk : Chunk} (hchunk : chunk ∈ r.dump) :
    SanePage chunk.records := by
  obtain ⟨i, hi, hpage⟩ := (chunk?_eq_some_iff hs).1 ((mem_dump hs).1 hchunk)
  rw [← hpage]
  exact h i hi.1

/-! ### Changes of chunks -/

theorem Sane.of_same (h : r.Sane) (hs : Same r r') : r'.Sane := by
  intro i hi
  have hholds := (hs.holds i _).1 ⟨hi, rfl⟩
  rw [hs.page i _ hholds]
  exact h i hholds.1

theorem Sane.of_chunks (h : r.Sane) (hchunks : r'.chunks = r.chunks) : r'.Sane := by
  intro i hi
  unfold page
  rw [hchunks] at hi ⊢
  exact h i hi

theorem Sane.inserted (h : r.Sane) {key : ChunkKey} {i : Nat} (hi : Inserted r key i r') : r'.Sane := by
  intro j hj
  by_cases hji : j = i
  · rw [hji, hi.page_self]
    exact sanePage_unused
  · rw [hi.page j hji]
    refine h j ?_
    rcases (hi.holds j _).1 ⟨hj, rfl⟩ with hk | hk
    · exact absurd hk.1 hji
    · exact hk.1

theorem Sane.removedFrom (h : r.Sane) {slots : List Nat} (hr : RemovedFrom r slots r') : r'.Sane := by
  intro i hi
  rw [hr.page]
  exact h i ((hr.holds i _).1 ⟨hi, rfl⟩).1.1

theorem Sane.writePage (h : r.Sane) {i : Nat} (hi : r.chunks.isUsed i = true) {page : List Record}
    (hpage : SanePage page) : (r.writePage i page).Sane := by
  intro j hj
  rw [page_writePage hi]
  split_ifs
  · exact hpage
  · exact h j ((r.chunks.holds_write i _ j _).1 ⟨hj, rfl⟩).1

theorem Sane.relock (h : r.Sane) (i : Nat) (word : UInt32) : (r.relock i word).Sane := by
  intro j hj
  rw [page_relock]
  exact h j ((r.holds_relock i word j _).1 ⟨hj, rfl⟩).1

/-! ### Folding -/

/-- Creating chunks, whether or not all of them fit. -/
theorem Sane.createChunks (h : r.Sane) (hs : r.Settled) {pages : List (List Record)} {key : ChunkKey}
    {created : List Nat} {answer : Except StoreError Unit} (hpages : ∀ page ∈ pages, SanePage page)
    (hrun : createChunks pages key created r = .ok (r', answer)) : r'.Sane := by
  induction pages generalizing r key created with
  | nil =>
    cases hrun
    exact h
  | cons page pages ih =>
    rw [Region.createChunks] at hrun
    rcases hs.insert key with ⟨e, he⟩ | ⟨i, r₁, he, hi⟩
    · -- the chunks created so far are taken out again
      rw [he] at hrun
      cases hrun
      exact h.removedFrom (removedFrom_foldl hs created)
    · rw [he] at hrun
      obtain ⟨next, -, hrun⟩ := bind_eq_ok_iff.1 hrun
      have hused : r₁.chunks.isUsed i = true := ((hi.holds i key).2 (.inl ⟨rfl, rfl⟩)).1
      have hwritten := (h.inserted hi).writePage hused (hpages page List.mem_cons_self).fillPage
      exact ih hwritten ((rewritten_writePage hi.settled.sound i _).settled hi.settled)
        (fun page' hpage' => hpages page' (List.mem_cons_of_mem _ hpage')) hrun

theorem sane_mergePage {stored call merged : List Record} (hstored : SanePage stored) (hcall : SanePage call)
    (h : mergePage stored call = .ok merged) : SanePage merged := by
  induction stored generalizing call merged with
  | nil =>
    rw [mergePage] at h
    cases h
    exact hstored
  | cons x stored ih =>
    cases call with
    | nil =>
      rw [mergePage] at h
      split_ifs at h
      cases h
      exact hstored
    | cons y call =>
      rw [mergePage] at h
      split_ifs at h
      obtain ⟨m, hmerge, h⟩ := bind_eq_ok_iff.1 h
      obtain ⟨rest, hrest, h⟩ := bind_eq_ok_iff.1 h
      cases h
      have hm := (hstored x List.mem_cons_self).merge (hcall y List.mem_cons_self)
        (Stop.ofFault_eq_ok_iff.1 hmerge)
      have htail := ih (fun z hz => hstored z (List.mem_cons_of_mem _ hz))
        (fun z hz => hcall z (List.mem_cons_of_mem _ hz)) hrest
      exact List.forall_mem_cons.2 ⟨hm, htail⟩

/-- What a call adds up to with the stored pages goes back to their slots. -/
theorem Sane.mergedPages (h : r.Sane) (hs : r.Sound) {page : List Record} {pages : List (List Record)}
    {key : ChunkKey} {i : Nat} {writes : List (Nat × List Record)} (hi : r.chunks.isUsed i = true)
    (hpage : SanePage page) (hpages : ∀ page ∈ pages, SanePage page)
    (hrun : r.mergedPages page pages key i = .ok writes) :
    ∀ w ∈ writes, r.chunks.isUsed w.1 = true ∧ SanePage w.2 := by
  induction pages generalizing page key i writes with
  | nil =>
    rw [Region.mergedPages] at hrun
    obtain ⟨merged, hmerge, hrun⟩ := bind_eq_ok_iff.1 hrun
    obtain ⟨next, -, hrun⟩ := bind_eq_ok_iff.1 hrun
    split_ifs at hrun
    cases hrun
    intro w hw
    rw [List.mem_singleton.1 hw]
    exact ⟨hi, sane_mergePage (h i hi) hpage hmerge⟩
  | cons page' pages ih =>
    rw [Region.mergedPages] at hrun
    obtain ⟨merged, hmerge, hrun⟩ := bind_eq_ok_iff.1 hrun
    obtain ⟨next, -, hrun⟩ := bind_eq_ok_iff.1 hrun
    cases hfind : r.find? next with
    | none =>
      rw [hfind] at hrun
      cases hrun
    | some j =>
      rw [hfind] at hrun
      obtain ⟨rest, hrest, hrun⟩ := bind_eq_ok_iff.1 hrun
      cases hrun
      have htail := ih (holds_of_find? hs hfind).1 (hpages page' List.mem_cons_self)
        (fun p hp => hpages p (List.mem_cons_of_mem _ hp)) hrest
      exact List.forall_mem_cons.2 ⟨⟨hi, sane_mergePage (h i hi) hpage hmerge⟩, htail⟩

theorem Sane.writePages (h : r.Sane) {writes : List (Nat × List Record)}
    (hwrites : ∀ w ∈ writes, r.chunks.isUsed w.1 = true ∧ SanePage w.2) : (r.writePages writes).Sane := by
  unfold Region.writePages
  induction writes generalizing r with
  | nil => exact h
  | cons w writes ih =>
    obtain ⟨hused, hpage⟩ := hwrites w List.mem_cons_self
    refine ih (h.writePage hused hpage) fun v hv => ?_
    obtain ⟨hused', hpage'⟩ := hwrites v (List.mem_cons_of_mem _ hv)
    exact ⟨((r.chunks.holds_write w.1 _ v.1 _).2 ⟨hused', rfl⟩).1, hpage'⟩

/-- A fold of a call with such counters, accepted or not. -/
theorem Sane.fold (h : r.Sane) (hs : r.Settled) {o : Owner} {id : Identity} {records : List Record}
    (hrecords : SanePage records) {access : Access (Except StoreError Unit)}
    (hrun : r.fold o id records = .ok access) : access.region.Sane := by
  cases hfirst : r.find? (.first id) with
  | none =>
    rw [Region.fold, hfirst] at hrun
    obtain ⟨⟨r', answer⟩, hcreate, hrun⟩ := bind_eq_ok_iff.1 hrun
    cases hrun
    exact h.createChunks hs (fun page hpage x hx => hrecords x (mem_of_mem_cutPages hpage hx)) hcreate
  | some i =>
    have hused := (holds_of_find? hs.sound hfirst).1
    obtain ⟨n, hn⟩ : ∃ n, chunksNeeded records.length = n + 1 :=
      ⟨_, (Nat.succ_pred_eq_of_pos (chunksNeeded_pos _)).symm⟩
    have hlocked := h.relock i o.id
    have hused' := ((r.holds_relock i o.id i _).2 ⟨hused, rfl⟩).1
    rw [Stores.fold_eq hs hfirst o hn] at hrun
    split at hrun
    · rename_i writes hwrites
      cases hrun
      have hpages := hlocked.mergedPages (hs.sound.relock i o.id) hused'
        (fun x hx => hrecords x (List.mem_of_mem_take hx))
        (fun page hpage x hx => hrecords x (List.mem_of_mem_drop (mem_of_mem_cutPages hpage hx))) hwrites
      exact (hlocked.writePages hpages).relock i 0
    · cases hrun
      exact hlocked.relock i 0
    · cases hrun

/-! ### Removing -/

theorem Sane.removeChain (h : r.Sane) (hs : r.Settled) {fuel : Nat} {key : ChunkKey} {removed n : Nat}
    (hrun : removeChain fuel key removed r = .ok (r', n)) : r'.Sane := by
  induction fuel generalizing r key removed with
  | zero =>
    cases hrun
    exact h
  | succ fuel ih =>
    rw [Region.removeChain] at hrun
    cases hfind : r.find? key with
    | none =>
      rw [hfind] at hrun
      cases hrun
      exact h
    | some i =>
      rw [hfind] at hrun
      obtain ⟨next, -, hrun⟩ := bind_eq_ok_iff.1 hrun
      exact ih (h.removedFrom (removedFrom_foldl hs [i])) (hs.remove i) hrun

theorem Sane.reset (h : r.Sane) (hs : r.Settled) {scope : ResetScope} {n : Nat}
    (hrun : r.reset scope = .ok (r', n)) : r'.Sane := by
  cases scope with
  | all =>
    cases hrun
    exact fun i hi => absurd ⟨hi, rfl⟩ (r.chunks.not_holds_clear i _)
  | incarnation id => exact h.removeChain hs hrun
  | unit unit =>
    cases hrun
    exact h.removedFrom (removedFrom_foldl hs _)

end Region

end ProcProfile
