import Mathlib.Tactic
import ProcProfile.Proofs.Region.Views

/-!
# Failed operations

A fold that does not fit is undone, and one that does not agree with the stored profile writes nothing.
What a failed fold leaves need not be the region that it found: undoing it leaves marks in slots that were
never used before.  But nobody can tell the two regions apart.

* `StoreRequest`, `serveAll`: any sequence of requests to a store;
* `Tidy.createChunks`, `Tidy.fold`: a fold that fails leaves the same chunks in the same slots;
* `Settled.serve_keepsChunks`: the requests that do not change chunks;
* `Tidy.serve`, `Tidy.serveAll`: every request keeps a region tidy;
* `failed_request_unseen`: a failed fold or insertion changes nothing that can be read.
-/

namespace ProcProfile

/-- A request to a store. -/
inductive StoreRequest where
  | fold (o : Owner) (id : Identity) (records : List Record)
  | insertChunk (id : Identity) (number : ChunkNumber)
  | reset (scope : ResetScope)
  | recordCall (o : Owner) (key : UnitKey) (elapsed : Counter) (isError : Bool)
  | resetStats (unit : Option UnitKey)
  | findChunk (o : Owner) (id : Identity) (number : ChunkNumber)
  | readRecords (o : Owner) (id : Identity)
  | summary (o : Owner) (key : UnitKey)
  | summaries (o : Owner)

/-- A request that does not change the chunks of a store. -/
def StoreRequest.KeepsChunks : StoreRequest → Prop
  | .fold .. | .insertChunk .. | .reset .. => False
  | _ => True

namespace Region

/-- The region after a request, whatever its answer is. -/
def serve (r : Region) : StoreRequest → Except Fault Region
  | .fold o id records => Access.region <$> r.fold o id records
  | .insertChunk id number => .ok (r.insertChunk id number).1
  | .reset scope => Prod.fst <$> r.reset scope
  | .recordCall o key elapsed isError => Access.region <$> r.recordCall o key elapsed isError
  | .resetStats unit => .ok (r.resetStats unit).1
  | .findChunk o id number => Access.region <$> r.findChunk o id number
  | .readRecords o id => Access.region <$> r.readRecords o id
  | .summary o key => Access.region <$> r.summary? o key
  | .summaries o => Access.region <$> r.summaries o

/-- The region after requests one after another. -/
def serveAll (requests : List StoreRequest) (r : Region) : Except Fault Region :=
  requests.foldlM serve r

variable {r r' : Region}

/-! ### Inserting -/

/-- What an insertion did, told by its answer. -/
theorem Settled.insert (h : r.Settled) (key : ChunkKey) :
    (∃ e, r.insert key = (r, .error e)) ∨ ∃ i r', r.insert key = (r', .ok i) ∧ Inserted r key i r' := by
  cases hkey : r.chunk? key with
  | some page =>
    rcases insert_cases h.sound key with ⟨i, -, he⟩ | ⟨-, -, he⟩ | ⟨habsent, -⟩
    · exact .inl ⟨_, he⟩
    · exact .inl ⟨_, he⟩
    · rw [(chunk?_eq_none_iff h.sound).2 habsent] at hkey
      cases hkey
  | none =>
    rcases Nat.eq_zero_or_pos r.free with hfull | hroom
    · exact .inl ⟨_, insert_full h.sound hkey hfull⟩
    · exact .inr (insert_room h hkey hroom)

theorem Tidy.inserted (h : r.Tidy) {key : ChunkKey} (hkey : key.filler = 0) {i : Nat}
    (hi : Inserted r key i r') : r'.Tidy := by
  refine ⟨hi.settled, fun j k hj => ?_⟩
  rcases (hi.holds j k).1 hj with ⟨-, rfl⟩ | hj
  · exact hkey
  · exact h.filler j k hj

/-- An insertion keeps a region tidy, and a failed one keeps it as it is. -/
theorem Tidy.insertChunk (h : r.Tidy) {id : Identity} {number : ChunkNumber}
    {answer : Except StoreError Chunk} (hrun : r.insertChunk id number = (r', answer)) :
    r'.Tidy ∧ ∀ e, answer = .error e → r' = r := by
  unfold Region.insertChunk at hrun
  dsimp only at hrun
  rcases h.settled.insert (.new id number) with ⟨e, he⟩ | ⟨i, r₁, he, hi⟩
  · rw [he] at hrun
    cases hrun
    exact ⟨h, fun _ _ => rfl⟩
  · rw [he] at hrun
    cases hrun
    exact ⟨h.inserted rfl hi, fun _ herr => by cases herr⟩

/-! ### Folding -/

theorem filler_of_next {key next : ChunkKey} (h : key.next = .ok next) : next.filler = 0 := by
  obtain ⟨number, -, rfl⟩ := map_eq_ok_iff.1 h
  rfl

/-- Creating chunks, some of which may be there already: either all are created, or the region keeps the
chunks that it had before the first. -/
theorem createChunks_eq_ok {r₀ : Region} (h₀ : r₀.Settled) {pages : List (List Record)} {key : ChunkKey}
    {created : List Nat} (hadd : AddedTo r₀ created r) (h : r.Tidy) (hkey : key.filler = 0)
    {answer : Except StoreError Unit} (hrun : createChunks pages key created r = .ok (r', answer)) :
    (answer = .ok () ∧ r'.Tidy) ∨ Same r₀ r' := by
  induction pages generalizing r key created with
  | nil =>
    cases hrun
    exact .inl ⟨rfl, h⟩
  | cons page pages ih =>
    rw [createChunks] at hrun
    rcases h.settled.insert key with ⟨e, he⟩ | ⟨i, r₁, he, hi⟩
    · -- the chunks created so far are taken out again
      rw [he] at hrun
      cases hrun
      exact .inr (hadd.same h₀)
    · rw [he] at hrun
      obtain ⟨next, hnext, hrun⟩ := bind_eq_ok_iff.1 hrun
      have hused : r₁.chunks.isUsed i = true := ((hi.holds i key).2 (.inl ⟨rfl, rfl⟩)).1
      exact ih ((hadd.insert hi).writePage hused (by simp) (fillPage page))
        ((h.inserted hkey hi).of_rewritten (rewritten_writePage hi.settled.sound i _))
        (filler_of_next hnext) hrun

theorem rewritten_writePages (h : r.Sound) (writes : List (Nat × List Record)) :
    Rewritten r (r.writePages writes) := by
  unfold writePages
  induction writes generalizing r with
  | nil => exact .refl h
  | cons w writes ih =>
    exact (rewritten_writePage h w.1 w.2).trans (ih (h.writePage w.1 w.2))

/-- A fold keeps a region tidy, and a failed one leaves the same chunks in the same slots. -/
theorem Tidy.fold (h : r.Tidy) {o : Owner} {id : Identity} {records : List Record}
    {access : Access (Except StoreError Unit)} (hrun : r.fold o id records = .ok access) :
    access.region.Tidy ∧ ∀ e, access.answer = .error e → Same r access.region := by
  cases hfirst : r.find? (.first id) with
  | none =>
    rw [Region.fold, hfirst] at hrun
    obtain ⟨⟨r', answer⟩, hcreate, hrun⟩ := bind_eq_ok_iff.1 hrun
    cases hrun
    rcases createChunks_eq_ok h.settled (.refl h.settled) h rfl hcreate with ⟨rfl, htidy⟩ | hsame
    · exact ⟨htidy, fun e he => by cases he⟩
    · exact ⟨h.of_same hsame, fun _ _ => hsame⟩
  | some i =>
    have hused := (holds_of_find? h.settled.sound hfirst).1
    obtain ⟨n, hn⟩ : ∃ n, chunksNeeded records.length = n + 1 :=
      ⟨_, (Nat.succ_pred_eq_of_pos (chunksNeeded_pos _)).symm⟩
    have hlocked := h.settled.sound.relock i o.id
    rw [Stores.fold_eq h.settled hfirst o hn] at hrun
    -- nothing is written before every page is found to agree
    split at hrun
    · rename_i writes _
      cases hrun
      have hrw := (rewritten_writePages hlocked writes).unlock h.settled hused
      exact ⟨h.of_rewritten hrw, fun e he => by cases he⟩
    · cases hrun
      have hsame := same_relock h.settled hused o.id
      exact ⟨h.of_same hsame, fun _ _ => hsame⟩
    · cases hrun

/-! ### Any requests -/

theorem Tidy.removeAll (h : r.Tidy) (slots : List Nat) : (slots.foldl Region.remove r).Tidy := by
  obtain ⟨hsettled, hholds, -⟩ := removedFrom_foldl h.settled slots
  exact ⟨hsettled, fun i key hi => h.filler i key ((hholds i key).1 hi).1⟩

theorem Tidy.removeChain (h : r.Tidy) {fuel : Nat} {key : ChunkKey} {removed n : Nat}
    (hrun : removeChain fuel key removed r = .ok (r', n)) : r'.Tidy := by
  induction fuel generalizing r key removed with
  | zero =>
    cases hrun
    exact h
  | succ fuel ih =>
    rw [Region.removeChain] at hrun
    cases hfind : r.find? key with
    | none =>
      rw [hfind] at hrun
      cases hrun
      exact h
    | some i =>
      rw [hfind] at hrun
      obtain ⟨next, -, hrun⟩ := bind_eq_ok_iff.1 hrun
      exact ih (h.removeAll [i]) hrun

theorem Tidy.reset (h : r.Tidy) {scope : ResetScope} {n : Nat} (hrun : r.reset scope = .ok (r', n)) :
    r'.Tidy := by
  cases scope with
  | all =>
    cases hrun
    exact ⟨h.settled.clear, fun i key hi => absurd hi (r.chunks.not_holds_clear i key)⟩
  | incarnation id => exact h.removeChain hrun
  | unit unit =>
    cases hrun
    exact h.removeAll _

theorem Settled.removeUnit (h : r.Settled) {i : Nat} (hi : r.units.isUsed i = true) :
    (r.removeUnit i).Settled ∧ (r.removeUnit i).chunks = r.chunks := by
  unfold Region.removeUnit
  rw [if_pos hi]
  refine ⟨h.of_units rfl rfl (h.sound.units.remove hi) fun j hj => ?_, rfl⟩
  have hheld := (r.units.holds_remove i j _).1 ⟨hj, rfl⟩
  change ((r.units.remove i).get j).mutex = 0
  rw [Table.get_remove, if_neg fun hc => hheld.1 hc.1]
  exact h.unit_unlocked j hheld.2.1

theorem Settled.resetStats (h : r.Settled) (unit : Option UnitKey) :
    (r.resetStats unit).1.Settled ∧ (r.resetStats unit).1.chunks = r.chunks := by
  cases unit with
  | none =>
    exact ⟨h.of_units rfl rfl h.sound.units.clear
      fun i hi => absurd ⟨hi, rfl⟩ (r.units.not_holds_clear i _), rfl⟩
  | some key =>
    unfold Region.resetStats
    dsimp only
    cases hfind : r.findUnit? key with
    | none => exact ⟨h, rfl⟩
    | some i => exact h.removeUnit ((Table.find?_eq_some_iff h.sound.units.sound).1 hfind).1

/-- What such requests leave: the same table of chunks, or one in which a lock was taken and given back. -/
theorem Settled.serve_keepsChunks (h : r.Settled) {request : StoreRequest} (hkeeps : request.KeepsChunks)
    (hrun : r.serve request = .ok r') : (r'.Settled ∧ r'.chunks = r.chunks) ∨ Same r r' := by
  cases request with
  | fold o id records => exact hkeeps.elim
  | insertChunk id number => exact hkeeps.elim
  | reset scope => exact hkeeps.elim
  | recordCall o key elapsed isError =>
    obtain ⟨access, hrecord, rfl⟩ := map_eq_ok_iff.1 hrun
    exact .inl (recordCall_eq_ok h hrecord)
  | resetStats unit =>
    cases hrun
    exact .inl (h.resetStats unit)
  | findChunk o id number =>
    obtain ⟨access, hfind, rfl⟩ := map_eq_ok_iff.1 hrun
    exact .inr ((reads_findChunk h o id number).same access hfind)
  | readRecords o id =>
    obtain ⟨access, hread, rfl⟩ := map_eq_ok_iff.1 hrun
    exact .inr ((reads_readRecords h o id).same access hread)
  | summary o key =>
    obtain ⟨access, hread, rfl⟩ := map_eq_ok_iff.1 hrun
    exact .inl (h.summary? hread)
  | summaries o =>
    obtain ⟨access, hread, rfl⟩ := map_eq_ok_iff.1 hrun
    obtain ⟨found, hfound, hread⟩ := bind_eq_ok_iff.1 hread
    have hkept := h.summariesAt hfound
    cases hread
    exact .inl hkept

/-- Every request keeps a region tidy. -/
theorem Tidy.serve (h : r.Tidy) {request : StoreRequest} (hrun : r.serve request = .ok r') : r'.Tidy := by
  by_cases hkeeps : request.KeepsChunks
  · rcases h.settled.serve_keepsChunks hkeeps hrun with ⟨hsettled, hchunks⟩ | hsame
    · exact h.of_chunks hsettled hchunks
    · exact h.of_same hsame
  · cases request with
    | fold o id records =>
      obtain ⟨access, hfold, rfl⟩ := map_eq_ok_iff.1 hrun
      exact (h.fold hfold).1
    | insertChunk id number =>
      cases hrun
      exact (h.insertChunk rfl).1
    | reset scope =>
      obtain ⟨⟨r', n⟩, hreset, rfl⟩ := map_eq_ok_iff.1 hrun
      exact h.reset hreset
    | _ => exact absurd trivial hkeeps

theorem Tidy.serveAll (h : r.Tidy) {requests : List StoreRequest} (hrun : serveAll requests r = .ok r') :
    r'.Tidy := by
  induction requests generalizing r with
  | nil =>
    cases hrun
    exact h
  | cons request requests ih =>
    unfold Region.serveAll at hrun
    rw [List.foldlM_cons] at hrun
    obtain ⟨r₁, hserve, hrun⟩ := bind_eq_ok_iff.1 hrun
    exact ih (h.serve hserve) hrun

/-- After any requests to a new store, a fold that answers an error and an insertion that answers an error
change nothing that anybody can read. -/
theorem failed_request_unseen (capacity unitCapacity : UInt64) (requests : List StoreRequest)
    (hrun : serveAll requests (create capacity unitCapacity) = .ok r) :
    (∀ o id records access e, r.fold o id records = .ok access → access.answer = .error e →
      SameView r access.region) ∧
    ∀ id number r' e, r.insertChunk id number = (r', .error e) → SameView r r' := by
  have htidy := (tidy_create capacity unitCapacity).serveAll hrun
  constructor
  · intro o id records access e hfold herr
    exact ((htidy.fold hfold).2 e herr).sameView htidy
  · intro id number r' e hinsert
    rw [(htidy.insertChunk hinsert).2 e rfl]
    exact (Same.refl htidy.settled).sameView htidy

/-- A stray chunk 2 of one incarnation, a counted call, and the profile of another incarnation. -/
def strayRequests : List StoreRequest :=
  [.insertChunk ⟨1, 1, 0, 0⟩ 2, .recordCall .local ⟨1, 1⟩ 5 false, .fold .local ⟨2, 1, 0, 0⟩ [.ofLine 7],
    .readRecords .local ⟨2, 1, 0, 0⟩]

/-- A first fold writes chunk 1 before the stray chunk stops it. -/
theorem failed_request_unseen_strayRequests :
    ∃ r access r', serveAll strayRequests (create 4 2) = .ok r ∧
      r.fold .local ⟨1, 1, 0, 0⟩ (List.replicate 31 (.ofLine 7)) = .ok access ∧
      access.answer = .error (.duplicateChunk 1 2) ∧ SameView r access.region ∧
      r.insertChunk ⟨1, 1, 0, 0⟩ 2 = (r', .error (.duplicateChunk 1 2)) ∧ SameView r r' := by
  have hanswers : (do
      let r ← serveAll strayRequests (create 4 2)
      let access ← r.fold .local ⟨1, 1, 0, 0⟩ (List.replicate 31 (.ofLine 7))
      return (access.answer, (r.insertChunk ⟨1, 1, 0, 0⟩ 2).2)) =
        .ok (.error (.duplicateChunk 1 2), .error (.duplicateChunk 1 2)) := by decide +kernel
  obtain ⟨r, hrun, hanswers⟩ := bind_eq_ok_iff.1 hanswers
  obtain ⟨access, hfold, hanswers⟩ := bind_eq_ok_iff.1 hanswers
  obtain ⟨herr, hinsert⟩ := Prod.mk.inj (Except.ok.inj hanswers)
  obtain ⟨hfolds, hinserts⟩ := failed_request_unseen 4 2 strayRequests hrun
  have hpair : r.insertChunk ⟨1, 1, 0, 0⟩ 2 =
      ((r.insertChunk ⟨1, 1, 0, 0⟩ 2).1, .error (.duplicateChunk 1 2)) := by rw [← hinsert]
  exact ⟨r, access, _, hrun, hfold, herr, hfolds _ _ _ access _ hfold herr, hpair, hinserts _ _ _ _ hpair⟩

end Region

end ProcProfile
