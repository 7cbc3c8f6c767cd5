import Mathlib.Tactic
import ProcProfile.Proofs.Record
import ProcProfile.Proofs.Tally.SelfTime
import ProcProfile.Session

/-!
# Counters that fit together

The counters of one statement are kept apart, but they are not independent: an execution that failed is an
execution, the longest time is one of those that add up to the total, and a statement that never ran has
nothing to show.  A clock that goes back, an end that is missing and an end without a begin do not change
this, and neither does the walk that turns times into self times.

* `Record.Sane`: such counters of one statement;
* `Timer.Sane.stop`, `Timer.Sane.settled`: one execution more, and a time turned into a self time;
* `Tally.Sane.begin`, `Tally.Sane.finish`, `Tally.Sane.closeOpen`, `Tally.Sane.creditEntry`,
  `Tally.Sane.fold`: each operation on the tally of a call;
* `Record.Sane.merge`: the counters of two calls together.
-/

namespace ProcProfile

/-- Counters of one statement that fit together: it failed no more often than it ran, its longest time is no
longer than all its times, and if it never ran, nothing was counted. -/
structure Record.Sane (x : Record) : Prop where
  error_le : x.errorCount ≤ x.execCount
  max_le : x.maxTime ≤ x.totalTime
  idle : x.execCount = 0 → x.totalTime = 0 ∧ x.maxTime = 0 ∧ x.rows = 0 ∧ x.errorCount = 0

instance : DecidablePred Record.Sane := fun x =>
  decidable_of_iff (x.errorCount ≤ x.execCount ∧ x.maxTime ≤ x.totalTime ∧
      (x.execCount = 0 → x.totalTime = 0 ∧ x.maxTime = 0 ∧ x.rows = 0 ∧ x.errorCount = 0))
    ⟨fun h => ⟨h.1, h.2.1, h.2.2⟩, fun h => ⟨h.1, h.2, h.3⟩⟩

theorem Counter.eq_zero_iff {a : Counter} : a = 0 ↔ a.toNat = 0 := by
  rw [← UInt64.toNat_inj]
  rfl

/-- The same said of natural numbers. -/
theorem Record.sane_iff {x : Record} :
    x.Sane ↔ x.errorCount.toNat ≤ x.execCount.toNat ∧ x.maxTime.toNat ≤ x.totalTime.toNat ∧
      (x.execCount.toNat = 0 → x.totalTime.toNat = 0 ∧ x.maxTime.toNat = 0 ∧ x.rows.toNat = 0 ∧
        x.errorCount.toNat = 0) := by
  simp only [← Counter.eq_zero_iff, ← UInt64.le_iff_toNat_le]
  exact ⟨fun h => ⟨h.1, h.2, h.3⟩, fun h => ⟨h.1, h.2.1, h.2.2⟩⟩

theorem Record.sane_ofLine (line : Int32) : (Record.ofLine line).Sane :=
  sane_iff.2 ⟨le_rfl, le_rfl, fun _ => ⟨rfl, rfl, rfl, rfl⟩⟩

/-- The counters of two calls together fit together. -/
theorem Record.Sane.merge {x y merged : Record} (hx : x.Sane) (hy : y.Sane) (h : x.merge y = .ok merged) :
    merged.Sane := by
  obtain ⟨htotal, hrows, hexec, herr, hmax, -⟩ := Record.merge_eq_ok_iff.1 h
  rw [sane_iff] at hx hy ⊢
  rw [htotal, hrows, hexec, herr, hmax, Counter.toNat_max]
  obtain ⟨hxerr, hxmax, hxidle⟩ := hx
  obtain ⟨hyerr, hymax, hyidle⟩ := hy
  refine ⟨by omega, by omega, fun hnone => ?_⟩
  have := hxidle (by omega)
  have := hyidle (by omega)
  omega

/-! ### Timers -/

/-- A timer whose counters fit together. -/
def Timer.Sane (t : Timer) : Prop := t.toRecord.Sane

theorem Timer.sane_ofLine (line : Int32) (fingerprint : Option UInt64) : (Timer.ofLine line fingerprint).Sane :=
  Record.sane_iff.2 ⟨le_rfl, le_rfl, fun _ => ⟨rfl, rfl, rfl, rfl⟩⟩

theorem Timer.stop_times {t t' : Timer} {startedAt now rows : Counter} {isError : Bool}
    (h : t.stop startedAt now rows isError = .ok t') :
    t'.elapsed.toNat = t.elapsed.toNat + (Counter.since now startedAt).toNat ∧
      t'.maxElapsed = max t.maxElapsed (Counter.since now startedAt) := by
  unfold stop at h
  obtain ⟨elapsed, helapsed, h⟩ := bind_eq_ok_iff.1 h
  obtain ⟨rows', -, h⟩ := bind_eq_ok_iff.1 h
  obtain ⟨exec, -, h⟩ := bind_eq_ok_iff.1 h
  dsimp only at h
  split_ifs at h
  · obtain ⟨err, -, h⟩ := bind_eq_ok_iff.1 h
    cases h
    exact ⟨Counter.add_eq_ok.1 helapsed, rfl⟩
  · cases h
    exact ⟨Counter.add_eq_ok.1 helapsed, rfl⟩

/-- One execution more, however long the clock says it took. -/
theorem Timer.Sane.stop {t t' : Timer} (h : t.Sane) {startedAt now rows : Counter} {isError : Bool}
    (hstop : t.stop startedAt now rows isError = .ok t') : t'.Sane := by
  obtain ⟨-, -, hexec, herr⟩ := Timer.stop_eq_ok hstop
  obtain ⟨helapsed, hmax⟩ := Timer.stop_times hstop
  obtain ⟨herr', hmax', -⟩ := Record.sane_iff.1 h
  refine Record.sane_iff.2 ?_
  simp only [toRecord] at herr' hmax' ⊢
  rw [hexec, herr, helapsed, hmax, Counter.toNat_max]
  have hone := Bool.toNat_le isError
  exact ⟨by omega, by omega, fun hnone => by omega⟩

/-- A self time is kept as the longest one only if it is the only one. -/
theorem Timer.Sane.settled {t : Timer} (h : t.Sane) (nested : Counter) : (SelfTime.settled t nested).Sane := by
  obtain ⟨herr, hmax, hidle⟩ := Record.sane_iff.1 h
  refine Record.sane_iff.2 ?_
  simp only [toRecord, SelfTime.settled] at herr hmax hidle ⊢
  refine ⟨herr, ?_, fun hnone => ?_⟩
  · split_ifs
    · exact le_rfl
    · exact Nat.zero_le _
  · obtain ⟨helapsed, -, hrows, herr⟩ := hidle hnone
    have hown : (Counter.since t.elapsed nested).toNat = 0 := by
      rw [Counter.toNat_since, helapsed, Nat.zero_sub]
    refine ⟨hown, ?_, hrows, herr⟩
    split_ifs
    · exact hown
    · rfl

/-- The one execution of a statement that nothing was counted for takes as long as it takes. -/
theorem Timer.Sane.credit {t : Timer} (h : t.Sane) (hexec : t.execCount = 0) (time : Counter) :
    Timer.Sane { t with execCount := 1, elapsed := time, maxElapsed := time } := by
  obtain ⟨-, -, -, herr⟩ := h.idle hexec
  refine Record.sane_iff.2 ⟨?_, le_rfl, fun hnone => absurd hnone Nat.one_ne_zero⟩
  change t.errorCount.toNat ≤ 1
  rw [show t.errorCount = 0 from herr]
  decide

/-! ### The tally of a call -/

namespace Tally

/-- A tally all of whose timers have counters that fit together. -/
def Sane (t : Tally) : Prop := ∀ (i : Nat) (timer : Timer), t.timers[i]? = some timer → timer.Sane

theorem sane_new (m : Numbering) (now : Counter) : (new m now).Sane := by
  intro i timer hi
  obtain ⟨line, fingerprint, rfl⟩ := ofLine_of_new hi
  exact Timer.sane_ofLine line fingerprint

theorem Sane.of_timers {t t' : Tally} (h : t.Sane) (htimers : t'.timers = t.timers) : t'.Sane := by
  intro i timer hi
  exact h i timer (htimers ▸ hi)

theorem Sane.changed {t t' : Tally} (h : t.Sane) {id : Nat} {timer' : Timer} (hc : Changed t id timer' t')
    (htimer' : timer'.Sane) : t'.Sane := by
  intro i timer hi
  rw [hc.getElem?] at hi
  split_ifs at hi with hid
  · cases hi
    exact htimer'
  · exact h i timer hi

/-- A change of one timer, if there is such a timer. -/
theorem Sane.modify {t : Tally} (h : t.Sane) (id : Nat) {f : Timer → Timer}
    (hf : ∀ timer : Timer, timer.Sane → (f timer).Sane) :
    Sane { t with timers := t.timers.modify id f } := by
  intro i timer hi
  rw [Array.getElem?_modify] at hi
  split_ifs at hi
  · obtain ⟨timer₀, htimer₀, rfl⟩ := Option.map_eq_some_iff.1 hi
    exact hf timer₀ (h i timer₀ htimer₀)
  · exact h i timer hi

theorem Sane.close {t t' : Tally} (h : t.Sane) {id : Nat} {now rows : Counter} {isError ran : Bool}
    (hrun : t.close id now rows isError = .ok (t', ran)) : t'.Sane := by
  unfold Tally.close at hrun
  split at hrun
  · cases hrun
    exact h
  · rename_i timer htimer
    split at hrun
    · cases hrun
      exact h
    · obtain ⟨timer', hstop, hrun⟩ := bind_eq_ok_iff.1 hrun
      cases hrun
      exact h.changed (changed_set htimer timer') ((h id timer htimer).stop hstop)

theorem Sane.closeAll {t t' : Tally} (h : t.Sane) {now : Counter} {ids : List Nat} {n : Nat}
    (hrun : t.closeAll now ids = .ok (t', n)) : t'.Sane := by
  induction ids generalizing t n with
  | nil =>
    cases hrun
    exact h
  | cons id ids ih =>
    rw [Tally.closeAll] at hrun
    obtain ⟨⟨t₁, ran⟩, hclose, hrun⟩ := bind_eq_ok_iff.1 hrun
    obtain ⟨⟨t₂, k⟩, hrest, hrun⟩ := bind_eq_ok_iff.1 hrun
    cases hrun
    exact ih (h.close hclose) hrest

theorem Sane.closeUntracked {t t' : Tally} (h : t.Sane) {keep : Option Nat} {now : Counter} {n : Nat}
    (hrun : t.closeUntracked keep now = .ok (t', n)) : t'.Sane := by
  obtain ⟨⟨t₁, k⟩, hclose, hrun⟩ := bind_eq_ok_iff.1 hrun
  cases hrun
  exact (h.closeAll hclose).of_timers rfl

/-- The end of a statement, and of all that was left running inside it. -/
theorem Sane.finish {t t' : Tally} (h : t.Sane) {id : Nat} {now rows : Counter} {isError : Bool}
    (hrun : t.finish id now rows isError = .ok t') : t'.Sane := by
  unfold Tally.finish at hrun
  dsimp only at hrun
  -- whatever is done about the statements inside leaves a sane tally, in which this one is closed
  suffices hlast : ∀ t₁ : Tally, t₁.Sane → (do
      let out ← t₁.close id now rows isError
      return out.1) = .ok t' → t'.Sane by
    by_cases hstack : t.stack.contains id = true
    · rw [if_pos hstack] at hrun
      obtain ⟨⟨t₁, k⟩, horphans, hrun⟩ := bind_eq_ok_iff.1 hrun
      have ht₁ : t₁.Sane :=
        Sane.closeAll (t := { t with stack := (t.stack.dropWhile (· != id)).tail }) (h.of_timers rfl) horphans
      split_ifs at hrun with hpos
      · obtain ⟨t₂, hmap, hrun⟩ := bind_eq_ok_iff.1 hrun
        obtain ⟨⟨t₃, k'⟩, huntracked, rfl⟩ := map_eq_ok_iff.1 hmap
        exact hlast t₃ (ht₁.closeUntracked huntracked) hrun
      · exact hlast t₁ ht₁ hrun
    · rw [if_neg hstack] at hrun
      refine hlast (if t.isOpen id then { t with untracked := t.untracked - 1 } else t) ?_ hrun
      split_ifs
      · exact h.of_timers rfl
      · exact h
  intro t₁ ht₁ hlast
  obtain ⟨⟨t₂, ran⟩, hclose, he⟩ := bind_eq_ok_iff.1 hlast
  cases he
  exact ht₁.close hclose

theorem Sane.start {t : Tally} (h : t.Sane) (id : Nat) (now : Counter) : (t.start id now).Sane := by
  have hmodify := h.modify id (f := fun timer => { timer with startedAt := some now }) fun _ htimer => htimer
  unfold Tally.start
  dsimp only
  split_ifs
  · exact hmodify.of_timers rfl
  · exact hmodify.of_timers rfl

theorem Sane.begin {t t' : Tally} (h : t.Sane) {id : Nat} {now : Counter} (hrun : t.begin id now = .ok t') :
    t'.Sane := by
  unfold Tally.begin at hrun
  dsimp only at hrun
  split_ifs at hrun
  · obtain ⟨t₁, hfinish, hrun⟩ := bind_eq_ok_iff.1 hrun
    cases hrun
    exact (h.finish hfinish).start id now
  · cases hrun
    exact h.start id now
  · cases hrun
    exact h

theorem Sane.closeOpen {t t' : Tally} (h : t.Sane) {now : Counter} {n : Nat}
    (hrun : t.closeOpen now = .ok (t', n)) : t'.Sane := by
  obtain ⟨⟨t₁, k⟩, hclose, hrun⟩ := bind_eq_ok_iff.1 hrun
  have ht₁ : t₁.Sane := Sane.closeAll (t := { t with stack := [] }) (h.of_timers rfl) hclose
  dsimp only at hrun
  split_ifs at hrun
  · obtain ⟨⟨t₂, k'⟩, hrest, hrun⟩ := bind_eq_ok_iff.1 hrun
    cases hrun
    exact ht₁.closeUntracked hrest
  · cases hrun
    exact ht₁

theorem Sane.creditEntry {t : Tally} (h : t.Sane) (now : Counter) : (t.creditEntry now).Sane := by
  refine h.modify 0 fun timer htimer => ?_
  split_ifs with hexec
  · exact htimer.credit hexec _
  · exact htimer

/-- Self times, however far the walk over the tree came. -/
theorem Sane.fold {t t' : Tally} (h : t.Sane) {m : Numbering} {p : Procedure} {time : Except WalkError Counter}
    (hrun : t.fold m p = .ok (time, t')) : t'.Sane := by
  refine fold_keeps (fun t id timer nested ht htimer => ?_) hrun h
  exact ht.changed (changed_set htimer _) ((ht id timer htimer).settled nested)

theorem Sane.toRecords {t : Tally} (h : t.Sane) {x : Record} (hx : x ∈ t.toRecords) : x.Sane := by
  obtain ⟨timer, htimer, rfl⟩ := List.mem_map.1 hx
  obtain ⟨i, hi⟩ := List.mem_iff_getElem?.1 htimer
  exact h i timer (by rwa [Array.getElem?_toList] at hi)

end Tally

/-! ### The records of a call -/

namespace Call

variable {c c' : Call}

theorem sane_beginStatement (h : c.tally.Sane) {s : Statement} {place : Place} {now : Counter}
    (hrun : c.beginStatement s place now = .ok c') : c'.tally.Sane := by
  obtain ⟨id, -, hrun⟩ := bind_eq_ok_iff.1 hrun
  obtain ⟨t, hbegin, hrun⟩ := bind_eq_ok_iff.1 hrun
  cases hrun
  exact h.begin (Stop.ofFault_eq_ok_iff.1 hbegin)

theorem sane_endStatement (h : c.tally.Sane) {s : Statement} {place : Place} {now rows : Counter}
    {isError : Bool} (hrun : c.endStatement s place now rows isError = .ok c') : c'.tally.Sane := by
  obtain ⟨id, -, hrun⟩ := bind_eq_ok_iff.1 hrun
  obtain ⟨t, hfinish, hrun⟩ := bind_eq_ok_iff.1 hrun
  cases hrun
  exact h.finish (Stop.ofFault_eq_ok_iff.1 hfinish)

theorem sane_records (h : c.tally.Sane) {now : Counter} {records : List Record}
    (hrun : c.records now = .ok (.ok records)) {x : Record} (hx : x ∈ records) : x.Sane := by
  obtain ⟨⟨t, n⟩, hclose, hrun⟩ := bind_eq_ok_iff.1 hrun
  obtain ⟨⟨time, t'⟩, hfold, hrun⟩ := bind_eq_ok_iff.1 hrun
  cases time with
  | error e => cases hrun
  | ok time =>
    cases hrun
    exact (((h.closeOpen hclose).creditEntry now).fold hfold).toRecords hx

end Call

end ProcProfile
