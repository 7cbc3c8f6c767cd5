import Mathlib.Data.Prod.Lex
import Mathlib.Tactic
import ProcProfile.Proofs.Region.Apart

/-!
# A region as a map of call statistics

Seen from outside, the call statistics of a region are a map from procedures to statistics.  `stats?` is this
map, and counting a call and forgetting calls are updates of it.  Reading one entry answers its value, and reading
all of them lists the map in the order of databases and units.

* `stats?`: the call statistics of a procedure;
* `recordCall_room`, `recordCall_full`: counting a call, with room for it and without;
* `stats?_resetStats`: forgetting calls;
* `summary?_answer`, `summaries_answer`, `summariesOf_answer`: what reading answers;
* `mem_snapshot`, `pairwise_snapshot`, `length_snapshot`: the list of all call statistics.
-/

namespace ProcProfile

/-- The procedure that a summary is about. -/
def UnitSummary.unitKey (u : UnitSummary) : UnitKey := ⟨u.unitId, u.ownerDb⟩

@[simp] theorem CallStats.unitKey_summary (s : CallStats) (key : UnitKey) : (s.summary key).unitKey = key := rfl

/-- The place of a procedure in the order of summaries. -/
def UnitKey.rank (key : UnitKey) : ℕ ×ₗ ℕ := toLex (key.ownerDb.toNat, key.unitId.toNat)

theorem UnitKey.rank_inj {a b : UnitKey} (h : a.rank = b.rank) : a = b := by
  obtain ⟨unit, db⟩ := a
  obtain ⟨unit', db'⟩ := b
  simp only [rank, toLex_inj, Prod.mk.injEq, UInt32.toNat_inj] at h
  obtain ⟨rfl, rfl⟩ := h
  rfl

theorem UnitKey.rank_lt_iff {a b : UnitKey} :
    a.rank < b.rank ↔ a.ownerDb < b.ownerDb ∨ a.ownerDb = b.ownerDb ∧ a.unitId < b.unitId := by
  rw [rank, rank, Prod.Lex.toLex_lt_toLex, UInt32.toNat_inj, ← UInt32.lt_iff_toNat_lt,
    ← UInt32.lt_iff_toNat_lt]

theorem UnitSummary.before_iff {a b : UnitSummary} : a.before b = true ↔ a.unitKey.rank ≤ b.unitKey.rank := by
  unfold before UnitKey.rank unitKey
  rw [Prod.Lex.toLex_le_toLex, UInt32.toNat_inj, ← UInt32.lt_iff_toNat_lt, ← UInt32.le_iff_toNat_le]
  by_cases hdb : a.ownerDb = b.ownerDb
  · simp [hdb]
  · simp [hdb]

/-- As many entries as there are used slots. -/
theorem Table.length_entries {κ ν : Type} [Inhabited κ] [Inhabited ν] (t : Table κ ν) :
    t.entries.length = t.usedSlots.card := by
  rw [entries_eq_map, List.length_map, ← List.toFinset_card_of_nodup (t.nodup_indices fun _ => true)]
  congr 1
  ext i
  rw [List.mem_toFinset, mem_indices, mem_usedSlots, and_iff_left rfl]

namespace Region

variable {r r' : Region} {key : UnitKey} {α : Type}

/-- The call statistics of a procedure, if the region has any. -/
def stats? (r : Region) (key : UnitKey) : Option CallStats := (r.findUnit? key).map r.stats

theorem stats?_eq_some_iff (h : r.Sound) {s : CallStats} :
    r.stats? key = some s ↔ ∃ i, r.units.Holds i key ∧ r.stats i = s := by
  rw [stats?, Option.map_eq_some_iff]
  exact exists_congr fun i => and_congr_left' (Table.find?_eq_some_iff h.units.sound)

theorem stats?_eq_none_iff (h : r.Sound) : r.stats? key = none ↔ ∀ i, ¬ r.units.Holds i key := by
  rw [stats?, Option.map_eq_none_iff]
  exact Table.find?_eq_none_iff h.units.sound

/-- The call statistics of two regions agree where the same slots hold the key and the same values. -/
theorem stats?_congr (h : r.Sound) (h' : r'.Sound)
    (hholds : ∀ i, r'.units.Holds i key ↔ r.units.Holds i key)
    (hstats : ∀ i, r.units.Holds i key → r'.stats i = r.stats i) : r'.stats? key = r.stats? key := by
  cases hs : r.stats? key with
  | none =>
    rw [stats?_eq_none_iff h] at hs
    exact (stats?_eq_none_iff h').2 fun i hi => hs i ((hholds i).1 hi)
  | some s =>
    obtain ⟨i, hi, rfl⟩ := (stats?_eq_some_iff h).1 hs
    exact (stats?_eq_some_iff h').2 ⟨i, (hholds i).2 hi, hstats i hi⟩

theorem stats?_create (capacity unitCapacity : UInt64) (key : UnitKey) :
    (create capacity unitCapacity).stats? key = none :=
  (stats?_eq_none_iff (sound_create _ _)).2 fun i => Table.not_holds_new unitCapacity.toNat i key

theorem stats?_of_units (hu : r'.units = r.units) : r'.stats? = r.stats? := by
  have hstats : r'.stats = r.stats := by
    funext i
    rw [stats, stats, hu]
  funext key
  rw [stats?, stats?, findUnit?, findUnit?, hu, hstats]

/-! ### Changing one slot -/

theorem stats_relockUnit (r : Region) (i : Nat) (word : UInt32) (j : Nat) :
    (r.relockUnit i word).stats j = r.stats j := by
  unfold stats relockUnit
  rw [Table.get_setMutex]
  split_ifs <;> rfl

theorem Sound.relockUnit (h : r.Sound) (i : Nat) (word : UInt32) : (r.relockUnit i word).Sound where
  chunks := h.chunks
  units := h.units.setMutex i word

theorem stats?_relockUnit (h : r.Sound) (i : Nat) (word : UInt32) : (r.relockUnit i word).stats? = r.stats? :=
  funext fun key => stats?_congr h (h.relockUnit i word) (fun j => r.units.holds_setMutex i word j key)
    fun j _ => r.stats_relockUnit i word j

theorem stats_writeStats {i : Nat} (hi : r.units.isUsed i = true) (s : CallStats) (j : Nat) :
    (r.writeStats i s).stats j = if i = j then s else r.stats j := by
  unfold writeStats stats
  rw [Table.get_write]
  have hlt := Table.isUsed_lt hi
  by_cases hij : i = j
  · simp [hij, hij ▸ hlt]
  · simp [hij]

theorem stats?_writeStats (h : r.Sound) {i : Nat} (hi : r.units.Holds i key) (s : CallStats) :
    (r.writeStats i s).stats? = Function.update r.stats? key (some s) := by
  funext k
  by_cases hk : k = key
  · subst hk
    rw [Function.update_self]
    refine (stats?_eq_some_iff (h.writeStats i s)).2 ⟨i, (r.units.holds_write i _ i k).2 hi, ?_⟩
    rw [stats_writeStats hi.1, if_pos rfl]
  · rw [Function.update_of_ne hk]
    refine stats?_congr h (h.writeStats i s) (fun j => r.units.holds_write i _ j k) fun j hj => ?_
    rw [stats_writeStats hi.1, if_neg]
    rintro rfl
    exact hk (hj.key_unique hi)

/-- Nobody holds a lock of a settled region, so that it is taken at once. -/
theorem withUnit_eq (h : r.Settled) {i : Nat} (hi : r.units.isUsed i = true) (o : Owner)
    (body : Region → Except Fault (Region × α)) :
    r.withUnit o i body = (do
      let (r', answer) ← body (r.relockUnit i o.id)
      return ⟨r'.relockUnit i 0, [], answer⟩) := by
  unfold withUnit Owner.take
  rw [h.unit_unlocked i hi, if_pos rfl]
  rfl

/-! ### Counting a call -/

/-- What a region is after the call statistics of one procedure were set. -/
structure StatsSet (r : Region) (key : UnitKey) (s : CallStats) (r' : Region) : Prop where
  settled : r'.Settled
  apart : r' = r.withUnits r'
  size : r'.units.size = r.units.size
  stats?_eq : r'.stats? = Function.update r.stats? key (some s)

theorem StatsSet.chunks_eq {s : CallStats} (h : StatsSet r key s r') : r'.chunks = r.chunks := by
  rw [h.apart, chunks_withUnits]

/-- A procedure with call statistics has one call more, unless a sum overflows. -/
theorem recordCall_present (h : r.Settled) {s : CallStats} (hs : r.stats? key = some s) (o : Owner)
    (elapsed : Counter) (isError : Bool) :
    EndsIn (fun access => ∃ s', s.record elapsed isError = .ok s' ∧ access.retired = [] ∧
        access.answer = .ok () ∧ StatsSet r key s' access.region)
      (fun f => s.record elapsed isError = .error f) (r.recordCall o key elapsed isError) := by
  obtain ⟨i, hi, rfl⟩ := (stats?_eq_some_iff h.sound).1 hs
  have hfind : r.findUnit? key = some i := (Table.find?_eq_some_iff h.sound.units.sound).2 hi
  have hlocked := h.sound.relockUnit i o.id
  have hrun : r.recordCall o key elapsed isError = (do
      let s' ← (r.stats i).record elapsed isError
      return ⟨((r.relockUnit i o.id).writeStats i s').relockUnit i 0, [], .ok ()⟩) := by
    rw [recordCall, hfind]
    dsimp only
    rw [withUnit_eq h hi.1, stats_relockUnit]
    cases (r.stats i).record elapsed isError <;> rfl
  cases hrecord : (r.stats i).record elapsed isError with
  | error f =>
    rw [hrun, hrecord]
    exact .error rfl
  | ok s' =>
    rw [hrecord] at hrun
    have hsettled := (recordCall_eq_ok h hrun).1
    rw [hrun]
    refine .ok ⟨s', rfl, rfl, rfl, hsettled, rfl, ?_, ?_⟩
    · simp [relockUnit, writeStats]
    · rw [stats?_relockUnit (hlocked.writeStats i s'),
        stats?_writeStats hlocked ((r.units.holds_setMutex i o.id i key).2 hi), stats?_relockUnit h.sound]

/-- Whether every slot for call statistics is used, as the header tells it. -/
theorem unitsUsed_lt_iff (h : r.Sound) :
    r.header.unitsUsed.toNat < r.unitCapacity ↔ ¬ ∀ i < r.units.size, r.units.isUsed i = true := by
  have hle := r.units.card_usedSlots_le
  rw [← r.units.card_usedSlots_eq_iff, h.units.count, unitCapacity]
  omega

/-- A procedure without call statistics gets its first ones while there is room, and a first call never
overflows. -/
theorem recordCall_absent (h : r.Settled) (hs : r.stats? key = none)
    (hroom : r.header.unitsUsed.toNat < r.unitCapacity) (o : Owner) (elapsed : Counter) (isError : Bool) :
    EndsIn (fun access => ∃ s', CallStats.zero.record elapsed isError = .ok s' ∧ access.retired = [] ∧
        access.answer = .ok () ∧ StatsSet r key s' access.region)
      (fun f => CallStats.zero.record elapsed isError = .error f) (r.recordCall o key elapsed isError) := by
  have habsent := (stats?_eq_none_iff h.sound).1 hs
  rcases insertUnit_cases h.sound key with ⟨i, hi, -⟩ | ⟨-, hall, -⟩ | ⟨-, i, hfirst, he⟩
  · exact absurd hi (habsent i)
  · exact absurd hall ((unitsUsed_lt_iff h.sound).1 hroom)
  have hplaced := h.placeStats hfirst habsent
  have hrun : r.recordCall o key elapsed isError = (do
      let s' ← CallStats.zero.record elapsed isError
      return .pure (Region.writeStats { r with
        header := { r.header with unitsUsed := r.header.unitsUsed + 1 }
        units := r.units.place i key CallStats.zero } i s') (.ok ())) := by
    rw [recordCall, findUnit?, (Table.find?_eq_none_iff h.sound.units.sound).2 habsent]
    dsimp only
    rw [he]
  cases hrecord : CallStats.zero.record elapsed isError with
  | error f =>
    rw [hrun, hrecord]
    exact .error rfl
  | ok s' =>
    rw [hrun, hrecord]
    have hholds := (Table.holds_place r.units hfirst.lt key CallStats.zero i key).2 (by rw [if_pos rfl])
    refine .ok ⟨s', rfl, rfl, rfl, hplaced.writeStats i s', rfl, ?_, ?_⟩
    · simp [Access.pure, writeStats, Table.size_place]
    · change (Region.writeStats _ i s').stats? = _
      rw [stats?_writeStats hplaced.sound hholds]
      funext k
      by_cases hk : k = key
      · rw [hk, Function.update_self, Function.update_self]
      · rw [Function.update_of_ne hk, Function.update_of_ne hk]
        -- slot `i` held nothing before, and holds another key now
        have hother : ∀ j, r.units.Holds j k → i ≠ j := by
          rintro j hj rfl
          exact hfirst.not_isUsed hj.1
        refine stats?_congr h.sound hplaced.sound (fun j => ?_) fun j hj => ?_
        · change (r.units.place i key CallStats.zero).Holds j k ↔ _
          rw [Table.holds_place r.units hfirst.lt]
          split_ifs with hij
          · exact ⟨fun he => absurd he.symm hk, fun hj => absurd hij (hother j hj)⟩
          · rfl
        · change ((r.units.place i key CallStats.zero).get j).value = _
          rw [Table.get_place _ hfirst.lt, if_neg (hother j hj)]
          rfl

/-- The statistics from which a call of a procedure is counted on. -/
theorem recordCall_room (h : r.Settled) (hroom : r.stats? key ≠ none ∨ r.header.unitsUsed.toNat < r.unitCapacity)
    (o : Owner) (elapsed : Counter) (isError : Bool) :
    EndsIn (fun access => ∃ s', ((r.stats? key).getD .zero).record elapsed isError = .ok s' ∧
        access.retired = [] ∧ access.answer = .ok () ∧ StatsSet r key s' access.region)
      (fun f => ((r.stats? key).getD .zero).record elapsed isError = .error f)
      (r.recordCall o key elapsed isError) := by
  cases hs : r.stats? key with
  | some s => exact recordCall_present h hs o elapsed isError
  | none => exact recordCall_absent h hs (hroom.resolve_left (absurd hs)) o elapsed isError

/-- Without room a first call is refused, and nothing changes. -/
theorem recordCall_full (h : r.Settled) (hs : r.stats? key = none)
    (hfull : ¬ r.header.unitsUsed.toNat < r.unitCapacity) (o : Owner) (elapsed : Counter) (isError : Bool) :
    r.recordCall o key elapsed isError = .ok (.pure r (.error (.unitTableFull r.unitCapacity))) := by
  have habsent := (stats?_eq_none_iff h.sound).1 hs
  have hall := not_not.1 (mt (unitsUsed_lt_iff h.sound).2 hfull)
  rw [recordCall, findUnit?, (Table.find?_eq_none_iff h.sound.units.sound).2 habsent]
  dsimp only
  rcases insertUnit_cases h.sound key with ⟨i, hi, -⟩ | ⟨-, -, he⟩ | ⟨-, i, hfirst, -⟩
  · exact absurd hi (habsent i)
  · rw [he]
    rfl
  · exact absurd (hall i hfirst.lt) hfirst.not_isUsed

/-! ### Forgetting calls -/

theorem stats?_resetStats (h : r.Settled) (unit : Option UnitKey) (key : UnitKey) :
    (r.resetStats unit).1.stats? key = if unit = none ∨ unit = some key then none else r.stats? key := by
  have hsettled := (h.resetStats unit).1
  cases unit with
  | none =>
    rw [if_pos (.inl rfl)]
    exact (stats?_eq_none_iff hsettled.sound).2 fun i => r.units.not_holds_clear i key
  | some gone =>
    simp only [reduceCtorEq, false_or, Option.some.injEq]
    unfold resetStats at hsettled ⊢
    dsimp only at hsettled ⊢
    cases hfind : r.findUnit? gone with
    | none =>
      dsimp only
      split_ifs with hkey
      · rw [← hkey, stats?, hfind, Option.map_none]
      · rfl
    | some i =>
      rw [hfind] at hsettled
      dsimp only at hsettled ⊢
      have hi : r.units.Holds i gone := (Table.find?_eq_some_iff h.sound.units.sound).1 hfind
      have hholds : ∀ j, (r.removeUnit i).units.Holds j key ↔ i ≠ j ∧ r.units.Holds j key := by
        intro j
        rw [units_removeUnit, Table.holds_remove]
      split_ifs with hkey
      · refine (stats?_eq_none_iff hsettled.sound).2 fun j hj => ?_
        obtain ⟨hne, hj⟩ := (hholds j).1 hj
        exact hne (h.sound.units.sound.unique hi (hkey ▸ hj))
      · refine stats?_congr h.sound hsettled.sound (fun j => ?_) fun j hj => ?_
        · rw [hholds]
          refine and_iff_right_of_imp fun hj hij => hkey ?_
          exact hi.key_unique (hij ▸ hj)
        · unfold stats
          rw [units_removeUnit, Table.get_remove]
          split_ifs <;> rfl

theorem size_resetStats (r : Region) (unit : Option UnitKey) :
    (r.resetStats unit).1.units.size = r.units.size := by
  cases unit with
  | none => rfl
  | some key =>
    unfold resetStats
    dsimp only
    cases r.findUnit? key with
    | none => rfl
    | some i =>
      dsimp only
      rw [units_removeUnit, Table.size_remove]

/-! ### Reading -/

theorem summary?_answer (h : r.Settled) (o : Owner) (key : UnitKey) :
    Access.answer <$> r.summary? o key = .ok ((r.stats? key).map fun s => s.summary key) := by
  rw [summary?_eq, stats?]
  cases hfind : r.findUnit? key with
  | none => rfl
  | some i =>
    have hused := ((Table.find?_eq_some_iff h.sound.units.sound).1 hfind).1
    have hstats := r.stats_relockUnit i o.id i
    dsimp only
    rw [Owner.take, h.unit_unlocked i hused, if_pos rfl, Option.map_some, Option.map_some, ← hstats]
    rfl

/-- Two regions with the same call statistics and the same room for more. -/
structure SameStats (r r' : Region) : Prop where
  stats?_eq : r'.stats? = r.stats?
  size : r'.units.size = r.units.size

theorem SameStats.trans {r'' : Region} (h : SameStats r r') (h' : SameStats r' r'') : SameStats r r'' :=
  ⟨h'.stats?_eq.trans h.stats?_eq, h'.size.trans h.size⟩

theorem sameStats_relockUnit (h : r.Sound) (i : Nat) (word : UInt32) :
    SameStats r ((r.relockUnit i word).relockUnit i 0) where
  stats?_eq := by rw [stats?_relockUnit (h.relockUnit i word), stats?_relockUnit h]
  size := by simp [relockUnit]

theorem sameStats_summary? (h : r.Settled) {o : Owner} {key : UnitKey} {access : Access (Option UnitSummary)}
    (hrun : r.summary? o key = .ok access) : SameStats r access.region := by
  rw [summary?_eq] at hrun
  cases hfind : r.findUnit? key with
  | none =>
    rw [hfind] at hrun
    cases hrun
    exact ⟨rfl, rfl⟩
  | some i =>
    rw [hfind] at hrun
    obtain ⟨retired, -, rfl⟩ := map_eq_ok_iff.1 hrun
    exact sameStats_relockUnit h.sound i o.id

theorem sameStats_summariesAt (h : r.Settled) {o : Owner} {slots : List Nat}
    {access : Access (List UnitSummary)} (hrun : summariesAt o slots r = .ok access) :
    SameStats r access.region := by
  induction slots generalizing r access with
  | nil =>
    cases hrun
    exact ⟨rfl, rfl⟩
  | cons i rest ih =>
    rw [summariesAt_cons] at hrun
    obtain ⟨retired, -, hrun⟩ := bind_eq_ok_iff.1 hrun
    obtain ⟨found, hfound, hrun⟩ := bind_eq_ok_iff.1 hrun
    have hrest := ih (h.relockUnit i o.id) hfound
    cases hrun
    exact (sameStats_relockUnit h.sound i o.id).trans hrest

/-- The call statistics of a region in the order in which they are reported. -/
def snapshot (r : Region) : List UnitSummary :=
  (r.units.entries.map fun e => e.2.summary e.1).mergeSort UnitSummary.before

theorem summariesAt_answer (h : r.Settled) (o : Owner) {slots : List Nat}
    (hslots : ∀ i ∈ slots, r.units.isUsed i = true) :
    Access.answer <$> summariesAt o slots r =
      .ok (slots.map fun i => (r.stats i).summary (r.units.get i).key) := by
  induction slots generalizing r with
  | nil => rfl
  | cons i rest ih =>
    have hi := hslots i List.mem_cons_self
    -- after slot `i` was read, all slots hold what they held
    have hslot : ∀ j, ((r.relockUnit i o.id).relockUnit i 0).stats j = r.stats j ∧
        ((((r.relockUnit i o.id).relockUnit i 0).units.get j).key = (r.units.get j).key) ∧
        ((r.relockUnit i o.id).relockUnit i 0).units.isUsed j = r.units.isUsed j := by
      intro j
      refine ⟨by rw [stats_relockUnit, stats_relockUnit], ?_, ?_⟩
      · simp only [relockUnit, Table.get_setMutex]
        split_ifs <;> rfl
      · simp only [relockUnit, Table.isUsed, Table.get_setMutex]
        split_ifs <;> rfl
    have hrest := ih (h.relockUnit i o.id) fun j hj => by
      rw [(hslot j).2.2]
      exact hslots j (List.mem_cons_of_mem _ hj)
    obtain ⟨found, hfound, hanswer⟩ := map_eq_ok_iff.1 hrest
    have hkey : ((r.units.setMutex i o.id).get i).key? = some (r.units.get i).key := by
      have hused : ((r.units.setMutex i o.id).get i).isUsed = true :=
        ((r.units.holds_setMutex i o.id i _).2 ⟨hi, rfl⟩).1
      rw [Slot.key?, if_pos hused, Table.get_setMutex]
      split_ifs <;> rfl
    rw [summariesAt_cons, Owner.take, h.unit_unlocked i hi, if_pos rfl, hfound]
    simp only [bind, Except.bind, pure, Except.pure, Functor.map, Except.map, hanswer, hkey, Option.map_some,
      Option.toList_some, List.singleton_append, List.map_cons, hslot]
    have hstats := r.stats_relockUnit i o.id i
    rw [← hstats]
    rfl

theorem summaries_answer (h : r.Settled) (o : Owner) :
    Access.answer <$> r.summaries o = .ok r.snapshot := by
  have hused : ∀ i ∈ r.units.indices fun _ => true, r.units.isUsed i = true :=
    fun i hi => (Table.mem_indices.1 hi).1
  have hread := summariesAt_answer h o hused
  obtain ⟨found, hfound, hanswer⟩ := map_eq_ok_iff.1 hread
  rw [summaries, hfound, snapshot, Table.entries_eq_map, List.map_map]
  exact congrArg (fun l => Except.ok (List.mergeSort l UnitSummary.before)) hanswer

theorem summariesOf_answer (h : r.Settled) (o : Owner) (db : UInt32) :
    Access.answer <$> r.summariesOf o db = .ok (r.snapshot.filter fun u => u.ownerDb == db) := by
  obtain ⟨found, hfound, hanswer⟩ := map_eq_ok_iff.1 (summaries_answer h o)
  rw [summariesOf, hfound, ← hanswer]
  rfl

theorem mem_snapshot (h : r.Sound) {u : UnitSummary} :
    u ∈ r.snapshot ↔ ∃ s, r.stats? u.unitKey = some s ∧ u = s.summary u.unitKey := by
  rw [snapshot, List.mem_mergeSort, List.mem_map]
  constructor
  · rintro ⟨⟨key, s⟩, hmem, rfl⟩
    obtain ⟨i, hi, hvalue⟩ := Table.mem_entries.1 hmem
    exact ⟨s, (stats?_eq_some_iff h).2 ⟨i, hi, hvalue⟩, rfl⟩
  · rintro ⟨s, hs, hu⟩
    obtain ⟨i, hi, hvalue⟩ := (stats?_eq_some_iff h).1 hs
    exact ⟨(u.unitKey, s), Table.mem_entries.2 ⟨i, hi, hvalue⟩, hu.symm⟩

/-- The list is strictly increasing, so that no procedure is listed twice. -/
theorem pairwise_snapshot (h : r.Sound) : r.snapshot.Pairwise fun a b => a.unitKey.rank < b.unitKey.rank := by
  have hsorted : r.snapshot.Pairwise fun a b => a.before b = true := by
    refine List.pairwise_mergeSort (fun a b c hab hbc => ?_) (fun a b => ?_) _
    · exact UnitSummary.before_iff.2 ((UnitSummary.before_iff.1 hab).trans (UnitSummary.before_iff.1 hbc))
    · rw [Bool.or_eq_true, UnitSummary.before_iff, UnitSummary.before_iff]
      exact le_total _ _
  have hkeys : (r.snapshot.map UnitSummary.unitKey).Nodup := by
    refine (((List.mergeSort_perm _ _).map UnitSummary.unitKey).nodup_iff).2 ?_
    rw [List.map_map]
    exact Table.nodup_keys_entries h.units.sound
  refine (hsorted.and (List.pairwise_map.1 hkeys)).imp fun {a b} hab => ?_
  exact lt_of_le_of_ne (UnitSummary.before_iff.1 hab.1) fun he => hab.2 (UnitKey.rank_inj he)

theorem length_snapshot (h : r.Sound) : r.snapshot.length = r.header.unitsUsed.toNat := by
  rw [snapshot, List.length_mergeSort, List.length_map, Table.length_entries, h.units.count]

end Region

end ProcProfile
