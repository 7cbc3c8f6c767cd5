import Mathlib.Tactic
import ProcProfile.Proofs.Fault
import ProcProfile.Proofs.Region.Stored
import ProcProfile.Region.Statistics

/-!
# Call statistics beside the profiles

Call statistics and chunks stand in two tables of one region.  Counting a call works on the table of call
statistics alone, takes one lock and gives it back, so the stored profiles stay what they were.

* `recordCall_eq_ok`: counting a call leaves the chunk table as it was and all locks free;
* `Stores.recordCall`: the stored profiles stay.
-/

namespace ProcProfile

namespace Region

variable {r : Region}

/-- Another table of call statistics without locks leaves a region settled. -/
theorem Settled.of_units (h : r.Settled) {r' : Region} (hchunks : r'.chunks = r.chunks)
    (hused : r'.header.used = r.header.used) (hunits : r'.units.Counted r'.header.unitsUsed)
    (hlocks : ∀ i, r'.units.isUsed i = true → (r'.units.get i).mutex = 0) : r'.Settled where
  sound := ⟨by rw [hchunks, hused]; exact h.sound.chunks, hunits⟩
  chunk_unlocked := by rw [hchunks]; exact h.chunk_unlocked
  unit_unlocked := hlocks

theorem Settled.writeStats (h : r.Settled) (i : Nat) (stats : CallStats) :
    (r.writeStats i stats).Settled := by
  refine h.of_units rfl rfl (h.sound.units.write i stats) fun j hj => ?_
  change ((r.units.write i stats).get j).mutex = 0
  have hused : r.units.isUsed j = true := ((r.units.holds_write i stats j _).1 ⟨hj, rfl⟩).1
  rw [Table.get_write]
  split_ifs
  all_goals exact h.unit_unlocked j hused

theorem Settled.placeStats (h : r.Settled) {key : UnitKey} {i : Nat}
    (hfirst : r.units.FirstFree key 0 (some i)) (habsent : ∀ j, ¬ r.units.Holds j key) :
    Settled { r with
      header := { r.header with unitsUsed := r.header.unitsUsed + 1 }
      units := r.units.place i key CallStats.zero } := by
  refine h.of_units rfl rfl (h.sound.units.place hfirst habsent _) fun j hj => ?_
  have hholds := (Table.holds_place r.units hfirst.lt key CallStats.zero j _).1 ⟨hj, rfl⟩
  change ((r.units.place i key CallStats.zero).get j).mutex = 0
  by_cases hij : i = j
  · rw [Table.get_place _ hfirst.lt, if_pos hij]
  · rw [if_neg hij] at hholds
    rw [Table.get_place _ hfirst.lt, if_neg hij]
    exact h.unit_unlocked j hholds.1

/-- Statistics that are rewritten under their lock: the lock is free before and after. -/
theorem Settled.withUnit_writeStats (h : r.Settled) {i : Nat} (hi : r.units.isUsed i = true)
    {o : Owner} (change : CallStats → Except Fault CallStats) {access : Access (Except StoreError Unit)}
    (hrun : r.withUnit o i (fun r => do
      let stats ← change (r.stats i)
      return (r.writeStats i stats, .ok ())) = .ok access) :
    access.region.Settled ∧ access.region.chunks = r.chunks := by
  unfold withUnit Owner.take at hrun
  rw [h.unit_unlocked i hi, if_pos rfl] at hrun
  obtain ⟨retired, hretired, hrun⟩ := bind_eq_ok_iff.1 hrun
  cases hretired
  obtain ⟨⟨r', answer⟩, hbody, hrun⟩ := bind_eq_ok_iff.1 hrun
  obtain ⟨stats, -, hbody⟩ := bind_eq_ok_iff.1 hbody
  cases hbody
  cases hrun
  refine ⟨h.of_units rfl rfl (((h.sound.units.setMutex i _).write i _).setMutex i 0) fun j hj => ?_, rfl⟩
  change ((((r.units.setMutex i o.id).write i stats).setMutex i 0).get j).mutex = 0
  have hused : r.units.isUsed j = true :=
    ((r.units.holds_setMutex i o.id j _).1 ((Table.holds_write _ i stats j _).1
      ((Table.holds_setMutex _ i 0 j _).1 ⟨hj, rfl⟩))).1
  -- slot `i` is the only one whose lock word was touched
  rw [Table.get_setMutex]
  split_ifs with hij
  · rfl
  · have hne : i ≠ j := fun he => hij ⟨he, by simpa using Table.isUsed_lt hi⟩
    rw [Table.get_write, if_neg fun hc => hne hc.1, Table.get_setMutex, if_neg fun hc => hne hc.1]
    exact h.unit_unlocked j hused

/-- Counting a call works on the table of call statistics alone and leaves no lock taken. -/
theorem recordCall_eq_ok (h : r.Settled) {o : Owner} {key : UnitKey} {elapsed : Counter} {isError : Bool}
    {access : Access (Except StoreError Unit)} (hrun : r.recordCall o key elapsed isError = .ok access) :
    access.region.Settled ∧ access.region.chunks = r.chunks := by
  unfold recordCall at hrun
  cases hfind : r.findUnit? key with
  | some i =>
    rw [hfind] at hrun
    have hused := ((Table.find?_eq_some_iff h.sound.units.sound).1 hfind).1
    exact h.withUnit_writeStats hused (fun stats => stats.record elapsed isError) hrun
  | none =>
    rw [hfind] at hrun
    have habsent := (Table.find?_eq_none_iff h.sound.units.sound).1 hfind
    rcases insertUnit_cases h.sound key with ⟨i, hi, -⟩ | ⟨-, -, he⟩ | ⟨-, i, hfirst, he⟩
    · exact absurd hi (habsent i)
    · rw [he] at hrun
      cases hrun
      exact ⟨h, rfl⟩
    · rw [he] at hrun
      obtain ⟨stats, -, hrun⟩ := bind_eq_ok_iff.1 hrun
      cases hrun
      exact ⟨(h.placeStats hfirst habsent).writeStats i stats, rfl⟩

/-- The stored profiles do not depend on the call statistics. -/
theorem Stores.of_chunks {a : Profiles} {r' : Region} (h : Stores r a) (hsettled : r'.Settled)
    (hchunks : r'.chunks = r.chunks) : Stores r' a := by
  refine ⟨hsettled, ?_, h.bounded⟩
  rw [← h.chunk?_eq]
  funext key
  have hpage : r'.page = r.page := by
    funext i
    rw [page, page, hchunks]
  rw [chunk?, chunk?, find?, find?, hchunks, hpage]

theorem Stores.recordCall {a : Profiles} (h : Stores r a) {o : Owner} {key : UnitKey} {elapsed : Counter}
    {isError : Bool} {access : Access (Except StoreError Unit)}
    (hrun : r.recordCall o key elapsed isError = .ok access) : Stores access.region a := by
  obtain ⟨hsettled, hchunks⟩ := recordCall_eq_ok h.settled hrun
  exact h.of_chunks hsettled hchunks

end Region

end ProcProfile
