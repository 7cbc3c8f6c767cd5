import Mathlib.Data.Set.Card
import Mathlib.Tactic
import ProcProfile.Proofs.Region.Summaries

/-!
# Call statistics against a ledger of calls

Call statistics keep no calls, only their number, their failures, and the sum, the least and the greatest of
their times.  Here a ledger of the accepted calls is kept beside the region, through any sequence of requests to
the store, and at the end the statistics are found to be those of the ledger.

* `CountedCall`, `CallStats.Counts`, `Counts.endsIn_record`: statistics of a list of calls, and one call more;
* `Ledger`, `Books`, `Books.serve`, `Books.serveAll`: the calls accepted since the last reset, beside the region;
* `Books.Agree`, `Agree.serve`, `Agree.serveAll`: what every request keeps;
* `Ledger.Told`: what a store tells is what the ledger says;
* `calls_told_exactly`: this holds after all requests.
-/

namespace ProcProfile

/-- A finished call: how long it took, and whether it failed. -/
structure CountedCall where
  elapsed : Counter
  failed : Bool
  deriving DecidableEq, Repr

/-- The time of some calls together. -/
def CountedCall.time (calls : List CountedCall) : Nat := (calls.map fun c => c.elapsed.toNat).sum

/-! ### The statistics of a list of calls -/

theorem Counter.min_def (a b : Counter) : min a b = if a ≤ b then a else b := rfl

theorem Counter.max_def (a b : Counter) : max a b = if a ≤ b then b else a := rfl

theorem Counter.toNat_min (a b : Counter) : (min a b).toNat = min a.toNat b.toNat := by
  rw [min_def]
  split_ifs with hle
  all_goals rw [UInt64.le_iff_toNat_le] at hle
  all_goals omega

/-- The statistics of a list of calls. -/
structure CallStats.Counts (s : CallStats) (calls : List CountedCall) : Prop where
  exec : s.execCount.toNat = calls.length
  err : s.errorCount.toNat = calls.countP CountedCall.failed
  total : s.totalTime.toNat = CountedCall.time calls
  min_mem : calls ≠ [] → ∃ c ∈ calls, c.elapsed = s.minTime
  min_le : ∀ c ∈ calls, s.minTime ≤ c.elapsed
  max_mem : calls ≠ [] → ∃ c ∈ calls, c.elapsed = s.maxTime
  le_max : ∀ c ∈ calls, c.elapsed ≤ s.maxTime

namespace CallStats

theorem counts_zero : CallStats.zero.Counts [] where
  exec := rfl
  err := rfl
  total := rfl
  min_mem h := absurd rfl h
  min_le _ hc := absurd hc List.not_mem_nil
  max_mem h := absurd rfl h
  le_max _ hc := absurd hc List.not_mem_nil

variable {s : CallStats} {calls : List CountedCall}

/-- The first call is the shortest and the longest one. -/
theorem counts_first {s' : CallStats} {call : CountedCall} (hexec : s'.execCount.toNat = 1)
    (herr : s'.errorCount.toNat = call.failed.toNat) (htotal : s'.totalTime.toNat = call.elapsed.toNat)
    (hmin : s'.minTime = call.elapsed) (hmax : s'.maxTime = call.elapsed) : s'.Counts [call] where
  exec := hexec
  err := by rw [herr]; cases hf : call.failed <;> simp [hf]
  total := by simp [htotal, CountedCall.time]
  min_mem _ := ⟨call, List.mem_singleton_self _, hmin.symm⟩
  min_le c hc := by rw [List.mem_singleton.1 hc, hmin]; exact UInt64.le_refl _
  max_mem _ := ⟨call, List.mem_singleton_self _, hmax.symm⟩
  le_max c hc := by rw [List.mem_singleton.1 hc, hmax]; exact UInt64.le_refl _

/-- A later call may be shorter or longer than all before it. -/
theorem Counts.next (h : s.Counts calls) (hne : calls ≠ []) {s' : CallStats} {call : CountedCall}
    (hexec : s'.execCount.toNat = s.execCount.toNat + 1)
    (herr : s'.errorCount.toNat = s.errorCount.toNat + call.failed.toNat)
    (htotal : s'.totalTime.toNat = s.totalTime.toNat + call.elapsed.toNat)
    (hmin : s'.minTime = min s.minTime call.elapsed) (hmax : s'.maxTime = max s.maxTime call.elapsed) :
    s'.Counts (call :: calls) where
  exec := by rw [hexec, h.exec, List.length_cons]
  err := by rw [herr, h.err, List.countP_cons]; cases hf : call.failed <;> simp
  total := by rw [htotal, h.total]; simp only [CountedCall.time, List.map_cons, List.sum_cons]; omega
  min_mem _ := by
    obtain ⟨c, hc, hce⟩ := h.min_mem hne
    rw [hmin, Counter.min_def]
    split_ifs
    · exact ⟨c, List.mem_cons_of_mem _ hc, hce⟩
    · exact ⟨call, List.mem_cons_self, rfl⟩
  min_le c hc := by
    rw [hmin, UInt64.le_iff_toNat_le, Counter.toNat_min]
    rcases List.mem_cons.1 hc with rfl | hc
    · exact min_le_right _ _
    · exact (min_le_left _ _).trans (UInt64.le_iff_toNat_le.1 (h.min_le c hc))
  max_mem _ := by
    obtain ⟨c, hc, hce⟩ := h.max_mem hne
    rw [hmax, Counter.max_def]
    split_ifs
    · exact ⟨call, List.mem_cons_self, rfl⟩
    · exact ⟨c, List.mem_cons_of_mem _ hc, hce⟩
  le_max c hc := by
    rw [hmax, UInt64.le_iff_toNat_le, Counter.toNat_max]
    rcases List.mem_cons.1 hc with rfl | hc
    · exact le_max_right _ _
    · exact (UInt64.le_iff_toNat_le.1 (h.le_max c hc)).trans (le_max_left _ _)

/-- One call more makes the number of calls or their time larger than a counter. -/
def Overflows (calls : List CountedCall) (elapsed : Counter) : Prop :=
  2 ^ 64 ≤ calls.length + 1 ∨ 2 ^ 64 ≤ CountedCall.time calls + elapsed.toNat

/-- One call more, unless the number of calls or their time overflows. -/
theorem Counts.endsIn_record (h : s.Counts calls) (elapsed : Counter) (isError : Bool) :
    EndsIn (fun s' => s'.Counts (⟨elapsed, isError⟩ :: calls))
      (fun f => f = .addOverflow ∧ Overflows calls elapsed) (s.record elapsed isError) := by
  have hle : calls.countP CountedCall.failed ≤ calls.length := List.countP_le_length
  have hexec := h.exec
  have herr := h.err
  have htotal := h.total
  have hone : (1 : Counter).toNat = 1 := rfl
  unfold record
  refine .bind (Counter.endsIn_add fun hover => ⟨rfl, .inl (by omega)⟩) fun exec hexec' =>
    .bind (Counter.endsIn_add fun hover => ⟨rfl, .inr (by omega)⟩) fun total htotal' => ?_
  -- whether there was a call before decides whether the times are compared
  have hleft : ∀ err : Counter, err.toNat = s.errorCount.toNat + isError.toNat →
      EndsIn (fun s' : CallStats => s'.Counts (⟨elapsed, isError⟩ :: calls))
        (fun f : Fault => f = .addOverflow ∧ Overflows calls elapsed)
        (if 1 < exec then
          pure ⟨exec, err, total, deviationBits s.sumSqBits exec elapsed total, min s.minTime elapsed,
            max s.maxTime elapsed⟩
        else pure ⟨exec, err, total, 0, elapsed, elapsed⟩) := by
    intro err herr'
    have hlater : 1 < exec ↔ calls ≠ [] := by
      rw [UInt64.lt_iff_toNat_lt, ← List.length_pos_iff]
      omega
    split_ifs with hmany
    · exact .ok (h.next (hlater.1 hmany) (by dsimp only; omega) herr' htotal' rfl rfl)
    · have hfirst : calls = [] := not_not.1 (mt hlater.2 hmany)
      subst hfirst
      have hnone : CountedCall.time [] = 0 := rfl
      simp only [List.length_nil, List.countP_nil] at hexec herr
      exact .ok (counts_first (by dsimp only; omega) (by dsimp only; omega) (by dsimp only; omega) rfl rfl)
  cases isError with
  | true =>
    refine .bind (Counter.endsIn_add fun hover => ⟨rfl, .inl (by omega)⟩) fun err herr' => ?_
    exact hleft err herr'
  | false => exact hleft s.errorCount rfl

theorem Counts.mul_min_le (h : s.Counts calls) : calls.length * s.minTime.toNat ≤ CountedCall.time calls := by
  have hle : ∀ n ∈ calls.map fun c => c.elapsed.toNat, s.minTime.toNat ≤ n := by
    intro n hn
    obtain ⟨c, hc, rfl⟩ := List.mem_map.1 hn
    exact UInt64.le_iff_toNat_le.1 (h.min_le c hc)
  unfold CountedCall.time
  simpa using List.card_nsmul_le_sum _ _ hle

theorem Counts.le_mul_max (h : s.Counts calls) : CountedCall.time calls ≤ calls.length * s.maxTime.toNat := by
  have hle : ∀ n ∈ calls.map fun c => c.elapsed.toNat, n ≤ s.maxTime.toNat := by
    intro n hn
    obtain ⟨c, hc, rfl⟩ := List.mem_map.1 hn
    exact UInt64.le_iff_toNat_le.1 (h.le_max c hc)
  unfold CountedCall.time
  simpa using List.sum_le_card_nsmul _ _ hle

end CallStats

/-! ### A ledger beside the region -/

/-- The calls of each procedure that were accepted since its call statistics were last reset, the last call in
front. -/
abbrev Ledger := UnitKey → List CountedCall

/-- A region and a ledger. -/
structure Books where
  region : Region
  ledger : Ledger

namespace Books

/-- A new region, and no calls. -/
def start (capacity unitCapacity : UInt64) : Books := ⟨Region.create capacity unitCapacity, fun _ => []⟩

/-- A request to the region.  A call that is accepted is entered into the ledger, and a reset of call statistics
strikes out what it forgets. -/
def serve (b : Books) : StoreRequest → Except Fault Books
  | .recordCall o key elapsed isError => do
    let counted ← b.region.recordCall o key elapsed isError
    return match counted.answer with
    | .ok () => ⟨counted.region, Function.update b.ledger key (⟨elapsed, isError⟩ :: b.ledger key)⟩
    | .error _ => ⟨counted.region, b.ledger⟩
  | .resetStats none => .ok ⟨(b.region.resetStats none).1, fun _ => []⟩
  | .resetStats (some key) => .ok ⟨(b.region.resetStats (some key)).1, Function.update b.ledger key []⟩
  | request => do
    let r ← b.region.serve request
    return ⟨r, b.ledger⟩

/-- Requests one after another. -/
def serveAll (requests : List StoreRequest) (b : Books) : Except Fault Books := requests.foldlM serve b

/-- The region holds the statistics of the calls in the ledger. -/
structure Agree (b : Books) : Prop where
  tidy : b.region.Tidy
  absent : ∀ key, b.region.stats? key = none ↔ b.ledger key = []
  counts : ∀ key, ((b.region.stats? key).getD .zero).Counts (b.ledger key)

theorem agree_start (capacity unitCapacity : UInt64) : (start capacity unitCapacity).Agree where
  tidy := Region.tidy_create capacity unitCapacity
  absent key := by simp [start, Region.stats?_create]
  counts key := by
    rw [start, Region.stats?_create, Option.getD_none]
    exact CallStats.counts_zero

variable {b b' : Books}

/-- A request that leaves the call statistics alone. -/
theorem Agree.of_sameStats (h : b.Agree) {r : Region} (htidy : r.Tidy) (hs : Region.SameStats b.region r) :
    Agree ⟨r, b.ledger⟩ where
  tidy := htidy
  absent key := by
    rw [hs.stats?_eq]
    exact h.absent key
  counts key := by
    rw [hs.stats?_eq]
    exact h.counts key

/-- Either there is room for a call of a procedure, and the call is entered unless it overflows; or its procedure
has none, the table is full, and nothing changes. -/
theorem Agree.recordCall (h : b.Agree) (o : Owner) (key : UnitKey) (elapsed : Counter) (isError : Bool) :
    (b.ledger key = [] ∧ b.region.header.unitsUsed.toNat = b.region.unitCapacity ∧
      b.region.recordCall o key elapsed isError =
        .ok (.pure b.region (.error (.unitTableFull b.region.unitCapacity)))) ∨
    (¬ (b.ledger key = [] ∧ b.region.header.unitsUsed.toNat = b.region.unitCapacity) ∧
      EndsIn (fun access => access.answer = .ok () ∧ access.region.unitCapacity = b.region.unitCapacity ∧
          Agree ⟨access.region, Function.update b.ledger key (⟨elapsed, isError⟩ :: b.ledger key)⟩)
        (fun f => f = .addOverflow ∧ CallStats.Overflows (b.ledger key) elapsed)
        (b.region.recordCall o key elapsed isError)) := by
  have hsettled := h.tidy.settled
  have hused : b.region.header.unitsUsed.toNat ≤ b.region.unitCapacity := by
    rw [hsettled.sound.units.count]
    exact b.region.units.card_usedSlots_le
  by_cases hroom : b.region.stats? key ≠ none ∨ b.region.header.unitsUsed.toNat < b.region.unitCapacity
  · refine .inr ⟨?_, ?_⟩
    · rintro ⟨hnone, hfull⟩
      rcases hroom with hpresent | hlt
      · exact hpresent ((h.absent key).2 hnone)
      · omega
    have hrecord := (h.counts key).endsIn_record elapsed isError
    refine (Region.recordCall_room hsettled hroom o elapsed isError).imp ?_ ?_
    · rintro access ⟨s', hs', -, hanswer, hset⟩
      rw [hs'] at hrecord
      have hcounts := endsIn_ok_iff.1 hrecord
      refine ⟨hanswer, hset.size, h.tidy.of_chunks hset.settled hset.chunks_eq, ?_, ?_⟩
      · intro k
        by_cases hk : k = key
        · simp [hset.stats?_eq, hk]
        · simp [hset.stats?_eq, hk, h.absent k]
      · intro k
        by_cases hk : k = key
        · simpa [hset.stats?_eq, hk] using hcounts
        · simpa [hset.stats?_eq, hk] using h.counts k
    · intro f hf
      rw [hf] at hrecord
      cases hrecord with
      | error hover => exact hover
  · rw [not_or, not_not] at hroom
    refine .inl ⟨(h.absent key).1 hroom.1, by omega, ?_⟩
    exact Region.recordCall_full hsettled hroom.1 hroom.2 o elapsed isError

/-- A reset of the call statistics of one procedure, or of all. -/
theorem Agree.resetStats (h : b.Agree) (unit : Option UnitKey) :
    Agree ⟨(b.region.resetStats unit).1,
      fun key => if unit = none ∨ unit = some key then [] else b.ledger key⟩ where
  tidy := h.tidy.of_chunks (h.tidy.settled.resetStats unit).1 (h.tidy.settled.resetStats unit).2
  absent key := by
    rw [Region.stats?_resetStats h.tidy.settled]
    dsimp only
    split_ifs
    · exact ⟨fun _ => rfl, fun _ => rfl⟩
    · exact h.absent key
  counts key := by
    rw [Region.stats?_resetStats h.tidy.settled]
    dsimp only
    split_ifs
    · exact CallStats.counts_zero
    · exact h.counts key

/-- Every request keeps the statistics those of the ledger, and the room for procedures. -/
theorem Agree.serve (h : b.Agree) {request : StoreRequest} (hrun : b.serve request = .ok b') :
    b'.Agree ∧ b'.region.unitCapacity = b.region.unitCapacity := by
  -- requests about chunks leave the table of call statistics as it was
  have hchunks : request.OnChunks → b.region.serve request = .ok b'.region → b'.ledger = b.ledger →
      b'.Agree ∧ b'.region.unitCapacity = b.region.unitCapacity := by
    intro hon hserve hledger
    have hunits : b'.region.units = b.region.units :=
      (congrArg Region.units (Region.units_of_serve hon hserve)).symm
    obtain ⟨region, ledger⟩ := b'
    cases hledger
    refine ⟨h.of_sameStats (h.tidy.serve hserve) ⟨Region.stats?_of_units hunits, ?_⟩, ?_⟩
    · rw [hunits]
    · exact congrArg Table.size hunits
  cases request with
  | recordCall o key elapsed isError =>
    obtain ⟨counted, hcounted, hrun⟩ := bind_eq_ok_iff.1 hrun
    rcases h.recordCall o key elapsed isError with ⟨-, -, hfull⟩ | ⟨-, hroom⟩
    · rw [hfull] at hcounted
      cases hcounted
      cases hrun
      exact ⟨h, rfl⟩
    · rw [hcounted] at hroom
      obtain ⟨hanswer, hsize, hagree⟩ := endsIn_ok_iff.1 hroom
      rw [hanswer] at hrun
      cases hrun
      exact ⟨hagree, hsize⟩
  | resetStats unit =>
    have hreset := h.resetStats unit
    have hsize := b.region.size_resetStats unit
    cases unit with
    | none =>
      cases hrun
      refine ⟨?_, hsize⟩
      simpa using hreset
    | some key =>
      cases hrun
      refine ⟨?_, hsize⟩
      have hledger : Function.update b.ledger key [] =
          fun k => if some key = none ∨ some key = some k then [] else b.ledger k := by
        funext k
        by_cases hk : k = key
        · simp [hk]
        · simp [hk, Ne.symm hk]
      rw [hledger]
      exact hreset
  | summary o key =>
    obtain ⟨r, hserve, hrun⟩ := bind_eq_ok_iff.1 hrun
    have htidy := h.tidy.serve hserve
    obtain ⟨access, hread, rfl⟩ := map_eq_ok_iff.1 hserve
    cases hrun
    have hsame := Region.sameStats_summary? h.tidy.settled hread
    exact ⟨h.of_sameStats htidy hsame, hsame.size⟩
  | summaries o =>
    obtain ⟨r, hserve, hrun⟩ := bind_eq_ok_iff.1 hrun
    have htidy := h.tidy.serve hserve
    obtain ⟨access, hread, rfl⟩ := map_eq_ok_iff.1 hserve
    obtain ⟨found, hfound, hread⟩ := bind_eq_ok_iff.1 hread
    have hsame := Region.sameStats_summariesAt h.tidy.settled hfound
    cases hread
    cases hrun
    exact ⟨h.of_sameStats htidy hsame, hsame.size⟩
  | fold | insertChunk | reset | findChunk | readRecords =>
    obtain ⟨r, hserve, hrun⟩ := bind_eq_ok_iff.1 hrun
    cases hrun
    exact hchunks trivial hserve rfl

theorem Agree.serveAll (h : b.Agree) {requests : List StoreRequest} (hrun : serveAll requests b = .ok b') :
    b'.Agree ∧ b'.region.unitCapacity = b.region.unitCapacity := by
  induction requests generalizing b with
  | nil =>
    cases hrun
    exact ⟨h, rfl⟩
  | cons request requests ih =>
    unfold Books.serveAll at hrun
    rw [List.foldlM_cons] at hrun
    obtain ⟨b₁, hserve, hrun⟩ := bind_eq_ok_iff.1 hrun
    obtain ⟨hagree, hsize⟩ := h.serve hserve
    obtain ⟨hagree', hsize'⟩ := ih hagree hrun
    exact ⟨hagree', hsize'.trans hsize⟩

end Books

/-! ### What the store tells -/

/-- A summary that tells exactly these calls of a procedure. -/
structure UnitSummary.Tells (u : UnitSummary) (key : UnitKey) (calls : List CountedCall) : Prop where
  unitKey : u.unitKey = key
  exec : u.execCount.toNat = calls.length
  err : u.errorCount.toNat = calls.countP CountedCall.failed
  total : u.totalTime.toNat = CountedCall.time calls
  least : (∃ c ∈ calls, c.elapsed = u.minTime) ∧ ∀ c ∈ calls, u.minTime ≤ c.elapsed
  greatest : (∃ c ∈ calls, c.elapsed = u.maxTime) ∧ ∀ c ∈ calls, c.elapsed ≤ u.maxTime
  between : calls.length * u.minTime.toNat ≤ u.totalTime.toNat ∧
    u.totalTime.toNat ≤ calls.length * u.maxTime.toNat

theorem CallStats.Counts.tells {s : CallStats} {calls : List CountedCall} (h : s.Counts calls)
    (hne : calls ≠ []) (key : UnitKey) : (s.summary key).Tells key calls where
  unitKey := rfl
  exec := h.exec
  err := h.err
  total := h.total
  least := ⟨h.min_mem hne, h.min_le⟩
  greatest := ⟨h.max_mem hne, h.le_max⟩
  between := by
    change _ ≤ s.totalTime.toNat ∧ s.totalTime.toNat ≤ _
    rw [h.total]
    exact ⟨h.mul_min_le, h.le_mul_max⟩

/-- The procedures with a call in the ledger. -/
def Ledger.procedures (ledger : Ledger) : Set UnitKey := {key | ledger key ≠ []}

/-- A store with room for the call statistics of `capacity` procedures tells what a ledger says, and takes the
next call accordingly. -/
structure Ledger.Told (ledger : Ledger) (capacity : Nat) (r : Region) : Prop where
  finite : ledger.procedures.Finite
  /-- The next call is refused exactly if it is the first one of its procedure and there is no more room. -/
  refused_iff : ∀ o key elapsed isError,
    (∃ access e, r.recordCall o key elapsed isError = .ok access ∧ access.answer = .error e) ↔
      ledger key = [] ∧ ledger.procedures.ncard = capacity
  /-- A call that is refused changes nothing. -/
  refused : ∀ o key elapsed isError access e, r.recordCall o key elapsed isError = .ok access →
    access.answer = .error e → e = .unitTableFull capacity ∧ access.region = r
  /-- Only an overflow keeps a call from being answered. -/
  fault : ∀ o key elapsed isError f, r.recordCall o key elapsed isError = .error f →
    CallStats.Overflows (ledger key) elapsed
  /-- What is read about one procedure. -/
  summary : ∀ o key, ∃ answer, Access.answer <$> r.summary? o key = .ok answer ∧
    (answer = none ↔ ledger key = []) ∧ ∀ u, answer = some u → u.Tells key (ledger key)
  /-- What is read about all procedures: each one once and in order. -/
  summaries : ∀ o, ∃ list, Access.answer <$> r.summaries o = .ok list ∧
    list.Pairwise (fun a b => a.ownerDb < b.ownerDb ∨ a.ownerDb = b.ownerDb ∧ a.unitId < b.unitId) ∧
    (∀ key, key ∈ list.map UnitSummary.unitKey ↔ ledger key ≠ []) ∧
    (∀ u ∈ list, Access.answer <$> r.summary? o u.unitKey = .ok (some u)) ∧
    (∀ db, Access.answer <$> r.summariesOf o db = .ok (list.filter fun u => u.ownerDb == db)) ∧
    r.header.unitsUsed.toNat = list.length ∧ ∀ shared, (r.info shared).usedUnits = list.length

namespace Books

variable {b : Books}

theorem Agree.mem_map_unitKey (h : b.Agree) (key : UnitKey) :
    key ∈ b.region.snapshot.map UnitSummary.unitKey ↔ b.ledger key ≠ [] := by
  rw [List.mem_map, ne_eq, ← h.absent key, ← ne_eq, Option.ne_none_iff_exists']
  constructor
  · rintro ⟨u, hu, rfl⟩
    obtain ⟨s, hs, -⟩ := (Region.mem_snapshot h.tidy.settled.sound).1 hu
    exact ⟨s, hs⟩
  · rintro ⟨s, hs⟩
    exact ⟨s.summary key, (Region.mem_snapshot h.tidy.settled.sound).2 ⟨s, hs, rfl⟩, rfl⟩

/-- The header counts the procedures of the ledger. -/
theorem Agree.ncard_procedures (h : b.Agree) :
    b.ledger.procedures.Finite ∧ b.ledger.procedures.ncard = b.region.header.unitsUsed.toNat := by
  have hset : b.ledger.procedures = ↑(b.region.snapshot.map UnitSummary.unitKey).toFinset := by
    ext key
    rw [Finset.mem_coe, List.mem_toFinset, h.mem_map_unitKey]
    rfl
  have hnodup : (b.region.snapshot.map UnitSummary.unitKey).Nodup := by
    refine List.pairwise_map.2 ((Region.pairwise_snapshot h.tidy.settled.sound).imp fun {a b} hlt he => ?_)
    exact (he ▸ hlt).false
  rw [hset, Set.ncard_coe_finset, List.toFinset_card_of_nodup hnodup, List.length_map,
    Region.length_snapshot h.tidy.settled.sound]
  exact ⟨Finset.finite_toSet _, rfl⟩

theorem Agree.told (h : b.Agree) : b.ledger.Told b.region.unitCapacity b.region := by
  have hsettled := h.tidy.settled
  obtain ⟨hfinite, hcard⟩ := h.ncard_procedures
  refine ⟨hfinite, fun o key elapsed isError => ?_, fun o key elapsed isError access e hrun he => ?_,
    fun o key elapsed isError f hrun => ?_, fun o key => ?_, fun o => ?_⟩
  · rw [hcard]
    rcases h.recordCall o key elapsed isError with ⟨hnone, hfull, hrun⟩ | ⟨hroom, hrun⟩
    · exact ⟨fun _ => ⟨hnone, hfull⟩, fun _ => ⟨_, _, hrun, rfl⟩⟩
    · refine ⟨?_, fun hfull => absurd hfull hroom⟩
      rintro ⟨access, e, hok, he⟩
      rw [hok] at hrun
      rw [(endsIn_ok_iff.1 hrun).1] at he
      cases he
  · rcases h.recordCall o key elapsed isError with ⟨-, -, hfull⟩ | ⟨-, hroom⟩
    · rw [hrun] at hfull
      cases hfull
      cases he
      exact ⟨rfl, rfl⟩
    · rw [hrun] at hroom
      rw [(endsIn_ok_iff.1 hroom).1] at he
      cases he
  · rcases h.recordCall o key elapsed isError with ⟨-, -, hfull⟩ | ⟨-, hroom⟩
    · rw [hrun] at hfull
      cases hfull
    · rw [hrun] at hroom
      cases hroom with
      | error hover => exact hover.2
  · refine ⟨_, Region.summary?_answer hsettled o key, ?_, fun u hu => ?_⟩
    · rw [Option.map_eq_none_iff, h.absent]
    · obtain ⟨s, hs, rfl⟩ := Option.map_eq_some_iff.1 hu
      have hcounts := h.counts key
      rw [hs, Option.getD_some] at hcounts
      refine hcounts.tells (fun hnone => ?_) key
      rw [← h.absent, hs] at hnone
      cases hnone
  · refine ⟨_, Region.summaries_answer hsettled o, ?_, h.mem_map_unitKey, fun u hu => ?_,
      Region.summariesOf_answer hsettled o, ?_, fun _ => ?_⟩
    · exact (Region.pairwise_snapshot hsettled.sound).imp fun hlt => UnitKey.rank_lt_iff.1 hlt
    · obtain ⟨s, hs, he⟩ := (Region.mem_snapshot hsettled.sound).1 hu
      rw [Region.summary?_answer hsettled, hs, Option.map_some, ← he]
    · exact (Region.length_snapshot hsettled.sound).symm
    · exact (Region.length_snapshot hsettled.sound).symm

/-- After any requests to a new store, the call statistics are those of exactly the calls that were accepted since
the last reset, and a call is refused exactly if it would be the first one of a procedure too many. -/
theorem calls_told_exactly (capacity unitCapacity : UInt64) (requests : List StoreRequest)
    (hrun : serveAll requests (start capacity unitCapacity) = .ok b) :
    b.ledger.Told unitCapacity.toNat b.region := by
  obtain ⟨hagree, hsize⟩ := (agree_start capacity unitCapacity).serveAll hrun
  have htold := hagree.told
  rwa [hsize] at htold

/-- Calls of three procedures where there is room for two, and a reset that makes room for the third. -/
def crowdedRequests : List StoreRequest :=
  [.recordCall .local ⟨1, 1⟩ 5 false, .recordCall .local ⟨2, 1⟩ 9 true, .recordCall .local ⟨3, 1⟩ 7 false,
    .fold .local ⟨1, 1, 0, 0⟩ [.ofLine 7], .recordCall .local ⟨1, 1⟩ 3 true, .resetStats (some ⟨2, 1⟩),
    .recordCall .local ⟨3, 1⟩ 4 false]

theorem calls_told_exactly_crowdedRequests :
    ∃ b, serveAll crowdedRequests (start 4 2) = .ok b ∧
      [⟨1, 1⟩, ⟨2, 1⟩, ⟨3, 1⟩].map b.ledger = [[⟨3, true⟩, ⟨5, false⟩], [], [⟨4, false⟩]] ∧
      b.ledger.Told 2 b.region := by
  obtain ⟨b, hrun, hledger⟩ := map_eq_ok_iff.1 (by decide +kernel :
    (fun b => [⟨1, 1⟩, ⟨2, 1⟩, ⟨3, 1⟩].map b.ledger) <$> serveAll crowdedRequests (start 4 2) =
      .ok [[⟨3, true⟩, ⟨5, false⟩], [], [⟨4, false⟩]])
  exact ⟨b, hrun, hledger, calls_told_exactly 4 2 crowdedRequests hrun⟩

end Books

end ProcProfile
