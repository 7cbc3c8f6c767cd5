import Mathlib.Tactic
import ProcProfile.Command
import ProcProfile.Proofs.Host
import ProcProfile.Proofs.Region.Afresh
import ProcProfile.Proofs.Region.Resets

/-!
# Removing a procedure

A procedure, or all of them, can be removed from a store: its chunks alone, or together with its call statistics,
by a session or by a command on a region file.  All of these remove the same and nothing else, and what was removed
is like what never was.

* `Region.reset_withOwner`, `Region.resetStats_withOwner`: a reset does not look at owner ids;
* `Region.AsNew`, `Region.asNew_of_absent`: folding into an incarnation as into one that never was;
* `Region.CallsReset`: what is left of call statistics;
* `Region.removeScope`, `Host.resetRegion_cases`: the command;
* `Removed`, `reset_removes_exactly`: every way to remove a procedure.
-/

namespace ProcProfile

namespace Region

variable {r r' : Region} {unit : Option UnitKey} {n : Nat}

/-! ### Owner ids -/

theorem removeAll_withOwner (r : Region) (owner : UInt32) (slots : List Nat) :
    slots.foldl Region.remove (r.withOwner owner) = (slots.foldl Region.remove r).withOwner owner := by
  induction slots generalizing r with
  | nil => rfl
  | cons i slots ih =>
    have hremove : (r.withOwner owner).remove i = (r.remove i).withOwner owner := by
      unfold remove
      change (if r.chunks.isUsed i then _ else _) = _
      split_ifs <;> rfl
    rw [List.foldl_cons, List.foldl_cons, hremove, ih]

theorem reset_withOwner (owner : UInt32) (hrun : r.reset (.ofUnit unit) = .ok (r', n)) :
    (r.withOwner owner).reset (.ofUnit unit) = .ok (r'.withOwner owner, n) := by
  cases unit with
  | none =>
    cases hrun
    rfl
  | some key =>
    cases hrun
    exact congrArg (fun q => Except.ok (q, _)) (r.removeAll_withOwner owner _)

theorem resetStats_withOwner (r : Region) (owner : UInt32) (unit : Option UnitKey) :
    (r.withOwner owner).resetStats unit = ((r.resetStats unit).1.withOwner owner, (r.resetStats unit).2) := by
  cases unit with
  | none => rfl
  | some key =>
    have hfind : (r.withOwner owner).findUnit? key = r.findUnit? key := rfl
    unfold resetStats
    dsimp only
    rw [hfind]
    cases r.findUnit? key with
    | none => rfl
    | some i =>
      dsimp only
      unfold removeUnit
      change ((if r.units.isUsed i then _ else _), 1) = _
      split_ifs <;> rfl

/-! ### Folding afterwards -/

/-- Whatever is folded into an incarnation, one call after another, is answered and read as it would be for an
incarnation without chunks in any other store, while there is room in both for the chunks that the first call
needs. -/
def AsNew (r : Region) (id : Identity) : Prop :=
  ∀ (capacity unitCapacity : UInt64) (requests : List StoreRequest) (other : Region),
    serveAll requests (create capacity unitCapacity) = .ok other →
    ∀ id' : Identity, (∀ c ∈ other.dump, c.key.identity ≠ id') →
    ∀ (o o' : Owner) (records : List Record) (calls : List (List Record)),
      chunksNeeded records.length ≤ (r.info false).freeChunks →
      chunksNeeded records.length ≤ (other.info false).freeChunks →
      foldReads o id (records :: calls) r =
        answersAbout id.unitId <$> foldReads o' id' (records :: calls) other

theorem free_eq_freeChunks (h : r.Sound) (shared : Bool) : r.free = (r.info shared).freeChunks := by
  unfold free info Header.info layout capacity
  dsimp only
  rw [h.chunks.count]

theorem asNew_of_absent {id : Identity} (h : r.Settled) (hnew : ∀ m < 2 ^ 15, r.chunk? (.nth id m) = none) :
    r.AsNew id := by
  intro capacity unitCapacity requests other hother id' habsent o o' records calls hroom hroom'
  have htidy := (tidy_create capacity unitCapacity).serveAll hother
  rw [← free_eq_freeChunks h.sound] at hroom
  rw [← free_eq_freeChunks htidy.settled.sound] at hroom'
  refine foldReads_new htidy.settled h (fun m _ => ?_) hnew hroom' hroom o' o calls
  -- a chunk would be listed in the dump
  cases hpage : other.chunk? (.nth id' m) with
  | none => rfl
  | some page => exact absurd rfl (habsent ⟨.nth id' m, page⟩ ((mem_dump htidy.settled.sound).2 hpage))

/-! ### Call statistics -/

/-- What is left of the call statistics of a region from which those of one procedure, or of all, were removed. -/
structure CallsReset (r : Region) (unit : Option UnitKey) (r' : Region) : Prop where
  summary : ∀ o key, Access.answer <$> r'.summary? o key =
    if inScope unit key then .ok none else Access.answer <$> r.summary? o key
  summaries : ∀ o, Access.answer <$> r'.summaries o =
    List.filter (fun u => !inScope unit u.unitKey) <$> (Access.answer <$> r.summaries o)

theorem callsReset_resetStats (h : r.Settled) (unit : Option UnitKey) : CallsReset r unit (r.resetStats unit).1 := by
  have h' := (h.resetStats unit).1
  constructor
  · intro o key
    rw [summary?_answer h', summary?_answer h, stats?_resetStats h, ← if_congr inScope_iff rfl rfl]
    split_ifs <;> rfl
  · intro o
    rw [summaries_answer h', summaries_answer h, snapshot_resetStats h]
    rfl

/-- What is left of call statistics is said by what is left of those of a region with the same ones. -/
theorem CallsReset.of_sameCalls {q : Region} (h : CallsReset r unit q) (hsame : SameCalls r' r) :
    CallsReset r' unit q := by
  refine ⟨fun o key => ?_, fun o => ?_⟩
  · rw [h.summary, hsame.summary]
  · rw [h.summaries, hsame.summaries]

theorem chunk?_resetStats (r : Region) (unit : Option UnitKey) : (r.resetStats unit).1.chunk? = r.chunk? := by
  rw [← withUnits_resetStats]
  rfl

theorem dump_resetStats (r : Region) (unit : Option UnitKey) : (r.resetStats unit).1.dump = r.dump := by
  rw [← withUnits_resetStats]
  rfl

theorem layout_reset (h : r.Settled) (hrun : r.reset (.ofUnit unit) = .ok (r', n)) : r'.layout = r.layout := by
  cases unit with
  | none =>
    cases hrun
    exact congrArg (Layout.mk · r.unitCapacity) (Table.size_clear r.chunks)
  | some key =>
    cases hrun
    have hr := removedFrom_foldl h (r.chunks.indices fun k => k.identity.unitKey == key)
    unfold layout capacity unitCapacity
    rw [hr.size, hr.units]

theorem layout_resetStats (r : Region) (unit : Option UnitKey) : (r.resetStats unit).1.layout = r.layout := by
  have hcapacity : (r.resetStats unit).1.capacity = r.capacity := by
    rw [← withUnits_resetStats]
    rfl
  unfold layout unitCapacity
  rw [hcapacity, size_resetStats]

/-- Removes the chunks and then the call statistics of one procedure, or of all; the number of either is told. -/
def removeScope (r : Region) (unit : Option UnitKey) : Except Fault (Access (Nat × Nat)) := do
  let out ← r.reset (.ofUnit unit)
  return .pure (out.1.resetStats unit).1 (out.2, (out.1.resetStats unit).2)

theorem removeScope_withOwner (owner : UInt32) (hrun : r.reset (.ofUnit unit) = .ok (r', n)) :
    (r.withOwner owner).removeScope unit =
      .ok (.pure ((r'.resetStats unit).1.withOwner owner) (n, (r'.resetStats unit).2)) := by
  unfold removeScope
  rw [reset_withOwner owner hrun]
  change Except.ok (Access.pure ((r'.withOwner owner).resetStats unit).1
    (n, ((r'.withOwner owner).resetStats unit).2)) = _
  rw [resetStats_withOwner]

end Region

/-! ### The command -/

namespace Host

variable {h h₁ : Host} {path : String} {file : FileId} {r r' : Region} {unit : Option UnitKey} {n : Nat}

theorem resetRegion_of_error {e : Stop StoreError} (hattach : h.attach path = (h₁, .error e)) :
    h.resetRegion path unit = (h₁, .failed (e.inContext ("Failed to attach to region " ++ path))) := by
  unfold resetRegion attachFor
  rw [hattach]

theorem resetRegion_of_ok {store : Store} {m : Nat} (hattach : h.attach path = (h₁, .ok store))
    (hanswer : (h₁.perform store fun _ r => r.removeScope unit).2 = .ok (n, m)) :
    (h.resetRegion path unit).2.result = .ok n ∧
    (h.resetRegion path unit).1 = (h₁.perform store fun _ r => r.removeScope unit).1.release store := by
  cases hrun : h₁.perform store fun _ r => r.removeScope unit with
  | mk h₂ removed =>
    rw [hrun] at hanswer
    cases hanswer
    unfold resetRegion attachFor
    rw [hattach]
    -- the scope is spelled out in the command
    cases unit with
    | none =>
      dsimp only
      erw [hrun]
      exact ⟨rfl, rfl⟩
    | some key =>
      dsimp only
      erw [hrun]
      exact ⟨rfl, rfl⟩

/-- The command on a region in a file: it does nothing to the region if it cannot be opened, and otherwise removes
its chunks and then its call statistics. -/
theorem resetRegion_cases (hopen : h.disk.openFile path = .ok file) (hmeasured : r.Measured)
    (hsettled : r.Settled) (hfile : h.disk.HoldsRegion file r) (hreset : r.reset (.ofUnit unit) = .ok (r', n)) :
    (∃ e, (h.attach path).2 = .error e ∧
      (h.resetRegion path unit).2.result = .error (e.inContext ("Failed to attach to region " ++ path)) ∧
      (h.resetRegion path unit).1.disk.HoldsRegion file r) ∨
    ((h.resetRegion path unit).2.result = .ok n ∧
      (h.resetRegion path unit).1.disk.HoldsRegion file (r'.resetStats unit).1) := by
  obtain ⟨hattached, hcases⟩ := attach_cases hopen hmeasured hfile
  cases hattach : h.attach path with
  | mk h₁ store =>
    rw [hattach] at hattached hcases
    rcases hcases with ⟨e, he⟩ | ⟨owner, token, hstore⟩
    · cases he
      rw [resetRegion_of_error hattach]
      exact .inl ⟨e, rfl, rfl, hattached⟩
    · cases hstore
      have hlayout : (r'.resetStats unit).1.layout = r.layout := by
        rw [Region.layout_resetStats, Region.layout_reset hsettled hreset]
      have hremove : ∀ (_ : Owner) (last : UInt32), (r.withOwner last).removeScope unit =
          .ok (.pure ((r'.resetStats unit).1.withOwner last) (n, (r'.resetStats unit).2)) :=
        fun _ last => Region.removeScope_withOwner last hreset
      have hperform : (h₁.perform (.file ⟨file, path, r.layout, owner, token⟩) fun _ r => r.removeScope unit).2 =
            .ok (n, (r'.resetStats unit).2) ∧
          (h₁.perform (.file ⟨file, path, r.layout, owner, token⟩) fun _ r => r.removeScope unit).1.disk.HoldsRegion
            file (r'.resetStats unit).1 :=
        perform_file rfl hattached hremove hlayout
      obtain ⟨hanswer, hheld⟩ := hperform
      obtain ⟨hresult, hhost⟩ := resetRegion_of_ok hattach hanswer
      rw [hhost]
      exact .inr ⟨hresult, holdsRegion_release hheld⟩

end Host

/-! ### Every way to remove -/

/-- What the command does to a region in a file: nothing if it cannot be opened; otherwise it tells the number of
chunks removed, and the file then shows what is left. -/
def Host.Removes (h : Host) (path : String) (unit : Option UnitKey) (file : FileId) (r left : Region) (n : Nat) :
    Prop :=
  (∃ e, (h.attach path).2 = .error e ∧
    (h.resetRegion path unit).2.result = .error (e.inContext ("Failed to attach to region " ++ path)) ∧
    (h.resetRegion path unit).1.disk.HoldsRegion file r) ∨
  ((h.resetRegion path unit).2.result = .ok n ∧
    ∃ shown, (h.resetRegion path unit).1.disk.read file = .ofRegion shown ∧ Region.SameView left shown ∧
      ∀ id : Identity, inScope unit id.unitKey = true → shown.AsNew id)

/-- One procedure, or all of them, removed from a region in every way: `chunksLeft` without its chunks, `left` without
its call statistics too, `n` chunks fewer. -/
structure Removed (r : Region) (unit : Option UnitKey) (chunksLeft left : Region) (n : Nat) : Prop where
  reset : r.reset (.ofUnit unit) = .ok (chunksLeft, n)
  chunks : Region.ChunksReset r unit chunksLeft n
  empty : unit = none → chunksLeft.dump = []
  resetAll : r.resetAll (.ofUnit unit) = .ok (left, n)
  dump : left.dump = chunksLeft.dump
  calls : Region.CallsReset r unit left
  asNew : ∀ id : Identity, inScope unit id.unitKey = true → chunksLeft.AsNew id ∧ left.AsNew id
  command : ∀ (h : Host) (path : String) (file : FileId), h.disk.openFile path = .ok file →
    h.disk.HoldsRegion file r → h.Removes path unit file r left n

/-- After any requests to a new store, a reset of one procedure, or of all, removes exactly what it is about, by
whichever way it is made, and what it removed is then as if it had never been. -/
theorem reset_removes_exactly (capacity unitCapacity : UInt64) (requests : List StoreRequest) {r : Region}
    (hrun : Region.serveAll requests (.create capacity unitCapacity) = .ok r) (unit : Option UnitKey) :
    ∃ chunksLeft left n, Removed r unit chunksLeft left n := by
  have htidy := (Region.tidy_create capacity unitCapacity).serveAll hrun
  have hmeasured := (Region.measured_create capacity unitCapacity).serveAll hrun
  obtain ⟨r', n, hreset⟩ := r.exists_reset unit
  have hchunks := Region.chunksReset_of_reset htidy hreset
  have hsettled' := (htidy.reset hreset).settled
  have hsettled := (hsettled'.resetStats unit).1
  have habsent : ∀ id : Identity, inScope unit id.unitKey = true → ∀ m < 2 ^ 15, r'.chunk? (.nth id m) = none := by
    intro id hid m _
    rw [Region.chunk?_reset htidy.settled hreset]
    exact if_pos hid
  have habsent' : ∀ id : Identity, inScope unit id.unitKey = true → ∀ m < 2 ^ 15,
      (r'.resetStats unit).1.chunk? (.nth id m) = none := by
    intro id hid
    rw [Region.chunk?_resetStats]
    exact habsent id hid
  refine ⟨r', (r'.resetStats unit).1, n, hreset, hchunks, ?_, ?_, r'.dump_resetStats unit, ?_, ?_, ?_⟩
  · rintro rfl
    rw [hchunks.dump]
    exact List.filter_eq_nil_iff.2 fun _ _ => Bool.false_ne_true
  · rw [Region.resetAll_eq, hreset]
    rfl
  · exact (Region.callsReset_resetStats hsettled' unit).of_sameCalls hchunks.calls
  · intro id hid
    exact ⟨Region.asNew_of_absent hsettled' (habsent id hid), Region.asNew_of_absent hsettled (habsent' id hid)⟩
  · intro h path file hopen hfile
    rcases Host.resetRegion_cases hopen hmeasured htidy.settled hfile hreset with hfailed | ⟨hresult, owner, hread⟩
    · exact .inl hfailed
    · refine .inr ⟨hresult, _, hread, Region.sameView_withOwner hsettled owner, fun id hid => ?_⟩
      exact Region.asNew_of_absent (hsettled.withOwner owner) (habsent' id hid)

/-- Two incarnations of one procedure and a chunk far off, with another procedure among them, in a full table. -/
def mixedRequests : List StoreRequest :=
  [.fold .local ⟨1, 1, 0, 0⟩ [.ofLine 7], .fold .local ⟨2, 1, 0, 0⟩ [.ofLine 3], .insertChunk ⟨1, 1, 0, 0⟩ 9,
    .fold .local ⟨1, 1, 5, 0⟩ [.ofLine 4], .recordCall .local ⟨1, 1⟩ 5 false, .recordCall .local ⟨2, 1⟩ 6 true]

/-- A host with one file that holds a region. -/
def Host.withFile (r : Region) : Host := ⟨⟨[(["region"], .file 0)], #[.ofRegion r], []⟩, #[]⟩

theorem reset_removes_exactly_mixedRequests :
    ∃ r chunksLeft left, Region.serveAll mixedRequests (.create 4 2) = .ok r ∧
      Removed r (some ⟨1, 1⟩) chunksLeft left 3 ∧
      ((Host.withFile r).resetRegion "region" (some ⟨1, 1⟩)).2.result = .ok 3 ∧
      Region.foldReads .local ⟨1, 1, 0, 0⟩ [[.ofLine 8], [.ofLine 9]] left =
        Region.answersAbout 1 <$> Region.foldReads .local ⟨3, 1, 0, 0⟩ [[.ofLine 8], [.ofLine 9]] (.create 4 2) := by
  obtain ⟨r, hrun, hfacts⟩ := bind_eq_ok_iff.1 (by decide +kernel : (do
    let r ← Region.serveAll mixedRequests (.create 4 2)
    let out ← r.resetAll (.unit ⟨1, 1⟩)
    return (out.2, (out.1.info false).freeChunks,
      ((Host.withFile r).resetRegion "region" (some ⟨1, 1⟩)).2.result.toOption)) = Except.ok (3, 3, some 3))
  obtain ⟨chunksLeft, left, n, hremoved⟩ := reset_removes_exactly 4 2 mixedRequests hrun (some ⟨1, 1⟩)
  obtain ⟨out, hreset, hfacts⟩ := bind_eq_ok_iff.1 hfacts
  cases hreset.symm.trans hremoved.resetAll
  simp only [pure, Except.pure, Except.ok.injEq, Prod.mk.injEq] at hfacts
  obtain ⟨rfl, hfree, hresult⟩ := hfacts
  refine ⟨r, chunksLeft, left, hrun, hremoved, ?_, ?_⟩
  · have hopen : (Host.withFile r).disk.openFile "region" = .ok 0 := by rfl
    rcases hremoved.command _ _ 0 hopen ⟨r.header.nextOwner, rfl⟩ with ⟨e, -, he, -⟩ | ⟨hok, -⟩
    · rw [he] at hresult
      cases hresult
    · exact hok
  · refine (hremoved.asNew ⟨1, 1, 0, 0⟩ rfl).2 4 2 [] _ rfl ⟨3, 1, 0, 0⟩ (fun c hc => ?_) _ _ _ _ ?_ ?_
    · have hempty : (Region.create 4 2).dump = [] := by decide +kernel
      rw [hempty] at hc
      cases hc
    · rw [hfree]
      decide
    · decide +kernel

end ProcProfile
