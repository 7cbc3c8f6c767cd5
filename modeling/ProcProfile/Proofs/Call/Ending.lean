import Mathlib.Tactic
import ProcProfile.Proofs.Call.Times
import ProcProfile.Proofs.Region.Apart
import ProcProfile.Proofs.Region.ChunkMap
import ProcProfile.Proofs.Region.Summaries
import ProcProfile.Proofs.Tally.Answers

/-!
# The end of a call

When a call ends, it is counted for its procedure and its records are folded into the profile of its incarnation.
The two work on different tables of the region, so each does what it would do alone, whatever becomes of the
other.

* `Region.CanCount`, `Region.Counted`, `Region.endsIn_recordCall`: counting a call, with or without room;
* `Region.SameChunks`, `Region.SameOthers`: what can be read about chunks, and about all that is not of one
  incarnation and its procedure;
* `Ending`: what a call that ended leaves behind, and what it answers;
* `Call.EndOverflow`, `Call.endsIn_finish`: what the end of any call comes to.
-/

namespace ProcProfile

theorem CallStats.endsIn_record (s : CallStats) (elapsed : Counter) (isError : Bool) :
    EndsIn (fun _ => True) (· = .addOverflow) (s.record elapsed isError) := by
  unfold record
  refine .bind (Counter.endsIn_add fun _ => rfl) fun exec _ =>
    .bind (Counter.endsIn_add fun _ => rfl) fun _ _ => ?_
  have hlast : ∀ first later : CallStats, EndsIn (fun _ => True) (· = Fault.addOverflow)
      (if 1 < exec then pure later else pure first) := by
    intro first later
    split_ifs
    · exact .ok trivial
    · exact .ok trivial
  cases isError with
  | false => exact hlast _ _
  | true => exact .bind (Counter.endsIn_add fun _ => rfl) fun _ _ => hlast _ _

namespace Region

variable {r r' r'' : Region} {key : UnitKey} {id : Identity}

/-! ### Counting -/

/-- A procedure has call statistics, or there is room for new ones. -/
def CanCount (r : Region) (key : UnitKey) : Prop :=
  r.stats? key ≠ none ∨ r.header.unitsUsed.toNat < r.unitCapacity

/-- What counting a call leaves behind, and what it answers. -/
structure Counted (r : Region) (key : UnitKey) (elapsed : Counter) (aborted : Bool)
    (access : Access (Except StoreError Unit)) : Prop where
  settled : access.region.Settled
  apart : access.region = r.withUnits access.region
  others : ∀ key', key' ≠ key → access.region.stats? key' = r.stats? key'
  counted : r.CanCount key → ∃ s, ((r.stats? key).getD .zero).record elapsed aborted = .ok s ∧
    access.region.stats? key = some s
  uncounted : ¬ r.CanCount key → access.region.stats? key = none
  answer_ok : r.CanCount key → access.answer = .ok ()
  answer_full : ¬ r.CanCount key → access.answer = .error (.unitTableFull r.unitCapacity)

/-- A call is counted or refused unless a sum overflows. -/
theorem endsIn_recordCall (h : r.Settled) (o : Owner) (key : UnitKey) (elapsed : Counter) (aborted : Bool) :
    EndsIn (Counted r key elapsed aborted)
      (fun f => f = .addOverflow ∧ ((r.stats? key).getD .zero).record elapsed aborted = .error f)
      (r.recordCall o key elapsed aborted) := by
  by_cases hroom : r.CanCount key
  · refine (recordCall_room h hroom o elapsed aborted).imp (fun access haccess => ?_) fun f hf => ?_
    · obtain ⟨s, hs, -, hanswer, hset⟩ := haccess
      refine ⟨hset.settled, hset.apart, fun key' hne => ?_, fun _ => ⟨s, hs, ?_⟩, absurd hroom,
        fun _ => hanswer, absurd hroom⟩
      · rw [hset.stats?_eq, Function.update_of_ne hne]
      · rw [hset.stats?_eq, Function.update_self]
    · have hends := ((r.stats? key).getD .zero).endsIn_record elapsed aborted
      rw [hf, endsIn_error_iff] at hends
      exact ⟨hends, hf⟩
  · obtain ⟨habsent, hfull⟩ := not_or.1 hroom
    rw [recordCall_full h (not_not.1 habsent) hfull]
    exact .ok ⟨h, rfl, fun _ _ => rfl, fun h => absurd h hroom, fun _ => not_not.1 habsent,
      fun h => absurd h hroom, fun _ => rfl⟩

/-! ### What stays -/

/-- Two regions of which everything that can be read about chunks is the same. -/
structure SameChunks (r r' : Region) : Prop where
  dump : r'.dump = r.dump
  usedChunks : ∀ shared, (r'.info shared).usedChunks = (r.info shared).usedChunks
  findChunk : ∀ o id number,
    Access.answer <$> r'.findChunk o id number = Access.answer <$> r.findChunk o id number
  readRecords : ∀ o id, Access.answer <$> r'.readRecords o id = Access.answer <$> r.readRecords o id

theorem SameChunks.trans (h : SameChunks r r') (h' : SameChunks r' r'') : SameChunks r r'' :=
  ⟨h'.dump.trans h.dump, fun shared => (h'.usedChunks shared).trans (h.usedChunks shared),
    fun o id number => (h'.findChunk o id number).trans (h.findChunk o id number),
    fun o id => (h'.readRecords o id).trans (h.readRecords o id)⟩

theorem SameView.sameChunks (h : SameView r r') : SameChunks r r' :=
  ⟨h.dump, fun shared => congrArg RegionInfo.usedChunks (h.info shared), h.findChunk, h.readRecords⟩

theorem answer_mapRegion_map {α : Type} (f : Region → Region) (x : Except Fault (Access α)) :
    Access.answer <$> (Access.mapRegion f <$> x) = Access.answer <$> x := by
  cases x <;> rfl

/-- Call statistics do not show in what is read about chunks. -/
theorem sameChunks_withUnits (r q : Region) : SameChunks r (r.withUnits q) where
  dump := rfl
  usedChunks _ := rfl
  findChunk o id number := by rw [findChunk_withUnits, answer_mapRegion_map]
  readRecords o id := by rw [readRecords_withUnits, answer_mapRegion_map]

/-- Two regions of which everything is the same that is neither about an incarnation nor about the calls of its
procedure. -/
structure SameOthers (r : Region) (id : Identity) (r' : Region) : Prop where
  dump : (r'.dump.filter fun c => c.key.identity ≠ id) = r.dump.filter fun c => c.key.identity ≠ id
  findChunk : ∀ o id' number, id' ≠ id →
    Access.answer <$> r'.findChunk o id' number = Access.answer <$> r.findChunk o id' number
  readRecords : ∀ o id', id' ≠ id →
    Access.answer <$> r'.readRecords o id' = Access.answer <$> r.readRecords o id'
  summary : ∀ o key, key ≠ id.unitKey →
    Access.answer <$> r'.summary? o key = Access.answer <$> r.summary? o key

/-- Other chunks stay with a fold, other call statistics with counting a call. -/
theorem sameOthers_withUnits {q : Region} (h : r.Tidy) (h' : r'.Tidy) (hq : q.Settled)
    (hchunks : ∀ key, key.identity ≠ id → r'.chunk? key = r.chunk? key)
    (hstats : ∀ key, key ≠ id.unitKey → q.stats? key = r.stats? key) : SameOthers r id (r'.withUnits q) where
  dump := by
    change (r'.dump.filter fun c => c.key.identity ≠ id) = _
    exact dump_filter_congr h h' (q := fun id' => id' ≠ id) fun key hkey => hchunks key (of_decide_eq_true hkey)
  findChunk o id' number hne := by
    rw [findChunk_withUnits, answer_mapRegion_map]
    exact findChunk_congr h.settled h'.settled (fun key hkey => hchunks key (hkey ▸ hne)) o number
  readRecords o id' hne := by
    rw [readRecords_withUnits, answer_mapRegion_map]
    exact readRecords_congr h.settled h'.settled (fun key hkey => hchunks key (hkey ▸ hne)) o
  summary o key hne := by
    rw [summary?_withUnits, answer_mapRegion_map, summary?_answer hq, summary?_answer h.settled, hstats key hne]

end Region

/-! ### The end of a call -/

/-- What a call that ended after a time with some records leaves behind, and what it answers, where `folded` is what
the fold of its records alone would leave behind. -/
structure Ending (r : Region) (id : Identity) (records : List Record) (elapsed : Counter) (aborted : Bool)
    (folded : Access (Except StoreError Unit)) (access : Access (Except ProfileError Unit)) : Prop where
  /-- The call is counted if and only if the procedure has call statistics or there is room for new ones. -/
  counted : (∃ s, ((r.stats? id.unitKey).getD .zero).record elapsed aborted = .ok s ∧
    access.region.stats? id.unitKey = some s) ↔ r.CanCount id.unitKey
  uncounted : ¬ r.CanCount id.unitKey → access.region.stats? id.unitKey = r.stats? id.unitKey
  /-- The stored chunks are what the fold makes of them: they gain the records if it is accepted, and are as they
  were if it is refused. -/
  chunks : Region.SameChunks folded.region access.region
  gained : folded.answer = .ok () → ∃ pages, Region.gainedPages r.chunk? id records = .ok pages ∧
    access.region.chunk? = Region.putPages r.chunk? id 1 pages
  refused : ∀ e, folded.answer = .error e → Region.SameChunks r access.region
  /-- A failed fold is told first, then a full table. -/
  answer_fold : ∀ e, folded.answer = .error e → access.answer = .error (.store e)
  answer_full : folded.answer = .ok () → ¬ r.CanCount id.unitKey →
    access.answer = .error (.store (.unitTableFull r.unitCapacity))
  answer_ok : folded.answer = .ok () → r.CanCount id.unitKey → access.answer = .ok ()
  others : Region.SameOthers r id access.region

/-- Counting and folding do what each of them does alone. -/
theorem ending_of_counted {r : Region} {id : Identity} {elapsed : Counter} {aborted : Bool} {o : Owner}
    {records : List Record} {counted folded : Access (Except StoreError Unit)}
    {access : Access (Except ProfileError Unit)} (h : r.Tidy)
    (hcounted : r.Counted id.unitKey elapsed aborted counted) (hfold : r.fold o id records = .ok folded)
    (hregion : access.region = folded.region.withUnits counted.region)
    (hanswer : access.answer =
      folded.answer.mapError ProfileError.store >>= fun _ => counted.answer.mapError ProfileError.store) :
    Ending r id records elapsed aborted folded access := by
  obtain ⟨hfolded, hrefused⟩ := h.fold hfold
  have hstats : access.region.stats? id.unitKey = counted.region.stats? id.unitKey := by rw [hregion]; rfl
  have hchunks : Region.SameChunks folded.region access.region := by
    rw [hregion]
    exact Region.sameChunks_withUnits _ _
  refine ⟨⟨?_, ?_⟩, ?_, hchunks, ?_, ?_, ?_, ?_, ?_, ?_⟩
  · rintro ⟨s, -, hs⟩
    by_contra hroom
    rw [hstats, hcounted.uncounted hroom] at hs
    cases hs
  · intro hroom
    obtain ⟨s, hs, hset⟩ := hcounted.counted hroom
    exact ⟨s, hs, hstats.trans hset⟩
  · intro hroom
    rw [hstats, hcounted.uncounted hroom, not_not.1 (not_or.1 hroom).1]
  · intro hok
    rw [hregion]
    exact Region.fold_accepted h.settled hfold hok
  · intro e he
    exact ((hrefused e he).sameView h).sameChunks.trans hchunks
  · intro e he
    rw [hanswer, he]
    rfl
  · intro hok hroom
    rw [hanswer, hok, hcounted.answer_full hroom]
    rfl
  · intro hok hroom
    rw [hanswer, hok, hcounted.answer_ok hroom]
    rfl
  · rw [hregion]
    exact Region.sameOthers_withUnits h hfolded hcounted.settled
      (fun key hkey => Region.fold_others h hfold hkey) hcounted.others

namespace Call

variable {c : Call} {p : Procedure}

/-- A call gives its records or is refused, unless a sum overflows. -/
theorem answers_records (c : Call) (now : Counter) :
    EndsIn (fun _ => True) (· = .addOverflow) (c.records now) := by
  rw [records]
  refine (c.tally.endsIn_closeOpen now).bind fun closed _ => ?_
  exact ((closed.1.creditEntry now).answers_fold _ _).bind fun _ _ => .ok trivial

/-- A call of a numbered copy gives its records unless a sum overflows. -/
theorem endsIn_records (hbuild : Numbering.build c.procedure = .ok c.numbering) (now : Counter) :
    EndsIn (fun answer => ∃ records, answer = .ok records) (· = .addOverflow) (c.records now) := by
  rw [records]
  refine (c.tally.endsIn_closeOpen now).bind fun closed _ => ?_
  refine ((closed.1.creditEntry now).endsIn_fold hbuild).bind fun out hout => ?_
  obtain ⟨time, htime⟩ := hout
  refine .ok ⟨out.2.toRecords, ?_⟩
  rw [htime]
  rfl

/-- Why a call cannot end: a sum overflows in its own records, in the calls of its procedure, or in the fold. -/
inductive EndOverflow (c : Call) (now : Counter) (aborted : Bool) (o : Owner) (r : Region) : Prop
  | records (h : c.records now = .error .addOverflow)
  | calls (h : ((r.stats? c.numbering.identity.unitKey).getD .zero).record
      (Counter.since now c.tally.startedAt) aborted = .error .addOverflow)
  | fold {records : List Record} (hrecords : c.records now = .ok (.ok records))
      (h : r.fold o c.numbering.identity records = .error .addOverflow)

/-- A call ends unless a sum overflows.  If the walk over its tree is refused, nothing else is done. -/
theorem endsIn_finish (c : Call) {r : Region} (h : r.Tidy) (now : Counter) (aborted : Bool) (o : Owner) :
    EndsIn (fun access =>
        (∃ records folded, c.records now = .ok (.ok records) ∧
          r.fold o c.numbering.identity records = .ok folded ∧
          Ending r c.numbering.identity records (Counter.since now c.tally.startedAt) aborted folded access) ∨
        ∃ e, c.records now = .ok (.error e) ∧ access = .pure r (.error (.walk e)))
      (fun f => f = .addOverflow ∧ c.EndOverflow now aborted o r) (c.finish now aborted o r) := by
  rw [finish]
  have hrecords := c.answers_records now
  cases hrun : c.records now with
  | error f =>
    rw [hrun, endsIn_error_iff] at hrecords
    exact .error ⟨hrecords, .records (hrecords ▸ hrun)⟩
  | ok answer =>
    cases answer with
    | error e => exact .ok (.inr ⟨e, rfl, rfl⟩)
    | ok records =>
      refine ((Region.endsIn_recordCall h.settled o _ _ aborted).imp (fun _ hcounted => hcounted)
        fun f hf => ⟨hf.1, .calls (hf.1 ▸ hf.2)⟩).bind fun counted hcounted => ?_
      -- the fold finds the chunks that it would find without the call being counted
      have happart := Region.fold_withUnits r counted.region o c.numbering.identity records
      rw [← hcounted.apart] at happart
      have hends := Region.endsIn_fold h.settled o c.numbering.identity records
      rw [Access.andThen, happart]
      cases hfold : r.fold o c.numbering.identity records with
      | error f =>
        rw [hfold, endsIn_error_iff] at hends
        exact .error ⟨hends, .fold hrun (hends ▸ hfold)⟩
      | ok folded =>
        refine .ok (.inl ⟨records, folded, rfl, hfold, ending_of_counted h hcounted hfold rfl ?_⟩)
        cases hanswer : folded.answer with
        | error e =>
          simp only [Access.map, Access.mapRegion, hanswer]
          rfl
        | ok u =>
          simp only [Access.map, Access.mapRegion, hanswer]
          rfl

end Call

end ProcProfile
