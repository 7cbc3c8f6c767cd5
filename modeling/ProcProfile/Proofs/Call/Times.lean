import Mathlib.Algebra.BigOperators.Intervals
import Mathlib.Tactic
import ProcProfile.Proofs.Call
import ProcProfile.Proofs.Tally.Walk
import ProcProfile.Proofs.Tally.Times

/-!
# The times in the records of a call

A host reports begins and ends with the time of its clock.  A report about a statement that the call does not
recognise is refused and changes nothing.  The times in the records that the call leaves are the own times that
belong to what its tally has measured when it ends.

* `Call.take`, `Call.takeAll`, `Call.recordsAfter`: reports, and the records after them;
* `Call.Timed`: a call with times and counts within bounds;
* `Call.Timed.endsIn_take`: one more report;
* `Call.measured`, `Call.Timed.endsIn_records`: the times in the records of a call.
-/

namespace ProcProfile

open Statement

/-- A clock that shows the start of a call, then the times of some reports, and then the end of the call, never
goes back. -/
def TimedHook.InOrder {α : Type} (start : Counter) (hooks : List (TimedHook α)) (stop : Counter) : Prop :=
  (start :: (hooks.map TimedHook.now ++ [stop])).Pairwise (· ≤ ·)

instance {α : Type} (start : Counter) (hooks : List (TimedHook α)) (stop : Counter) :
    Decidable (TimedHook.InOrder start hooks stop) :=
  inferInstanceAs (Decidable (List.Pairwise _ _))

theorem TimedHook.InOrder.cons {α : Type} {start stop : Counter} {hook : TimedHook α}
    {hooks : List (TimedHook α)} (h : InOrder start (hook :: hooks) stop) :
    start ≤ hook.now ∧ InOrder hook.now hooks stop := by
  unfold InOrder at h ⊢
  rw [List.map_cons, List.cons_append, List.pairwise_cons] at h
  exact ⟨h.1 _ (by simp), h.2⟩

theorem TimedHook.InOrder.le {α : Type} {start stop : Counter} {hooks : List (TimedHook α)}
    (h : InOrder start hooks stop) : start ≤ stop := by
  unfold InOrder at h
  exact (List.pairwise_cons.1 h).1 stop (by simp)

/-- The rows that some reports add. -/
def TimedHook.totalRows {α : Type} (hooks : List (TimedHook α)) : Nat := (hooks.map TimedHook.rows).sum

/-- The statement at a position of the tree of a copy, as an interpreter names it. -/
def Procedure.locate (p : Procedure) (i : Nat) : Statement × Place :=
  (p.body.preorder.getD i p.body, p.places i)

namespace Tally

/-- Closing a timer leaves all of its time measured. -/
theorem elapsed_of_closed {t : Tally} {i : Nat} (h : t.isOpen i = false) (now : Counter) :
    t.elapsed i = t.spent now i := by
  unfold elapsed spent
  cases htimer : t.timers[i]? with
  | none => rfl
  | some timer =>
    have hclosed : timer.startedAt = none := by simpa [isOpen, htimer, Timer.isOpen] using h
    simp [Timer.spent, hclosed]

theorem elapsed_creditEntry {t : Tally} (hsize : 0 < t.size) (now : Counter) (i : Nat) :
    (t.creditEntry now).elapsed i =
      if i = 0 ∧ t.exec 0 = 0 then now.toNat - t.startedAt.toNat else t.elapsed i := by
  obtain ⟨timer, htimer⟩ : ∃ timer, t.timers[0]? = some timer := ⟨_, Array.getElem?_eq_getElem hsize⟩
  have hchanged : t.Changed 0 _ (t.creditEntry now) := changed_modify htimer _
  have hnone : timer.execCount = 0 ↔ t.exec 0 = 0 := by
    rw [exec, htimer, Option.elim_some, ← UInt64.toNat_inj]
    rfl
  rw [hchanged.elapsed_eq]
  by_cases hi : i = 0
  · subst hi
    by_cases hzero : timer.execCount = 0
    · rw [if_pos rfl, if_pos hzero, if_pos ⟨rfl, hnone.1 hzero⟩, Counter.toNat_since]
    · rw [if_pos rfl, if_neg hzero, if_neg fun h => hzero (hnone.2 h.2), elapsed, htimer,
        Option.elim_some]
  · rw [if_neg hi, if_neg fun h => hi h.1]

theorem map_totalTime_toRecords (t : Tally) :
    (t.toRecords.map fun x => x.totalTime.toNat) = (List.range t.size).map t.elapsed := by
  refine List.ext_getElem? fun i => ?_
  unfold toRecords elapsed size
  by_cases hi : i < t.timers.size
  · simp [hi, Timer.toRecord]
  · simp [hi]

end Tally

namespace Call

/-- What becomes of a call that answers a report: if it refuses the report, it stays as it is. -/
def orKeep (c : Call) : Except (Stop WalkError) Call → Except Fault Call
  | .ok c' => .ok c'
  | .error (.error _) => .ok c
  | .error (.fault f) => .error f

/-- One report. -/
def take (c : Call) : TimedHook (Statement × Place) → Except Fault Call
  | .begin (s, place) now => c.orKeep (c.beginStatement s place now)
  | .finish (s, place) now rows isError => c.orKeep (c.endStatement s place now rows isError)

/-- Reports one after another. -/
def takeAll (c : Call) (hooks : List (TimedHook (Statement × Place))) : Except Fault Call := hooks.foldlM take c

/-- The records that a call leaves when it ends after some reports. -/
def recordsAfter (c : Call) (hooks : List (TimedHook (Statement × Place))) (stop : Counter) :
    Except Fault (Except WalkError (List Record)) := do
  let c ← c.takeAll hooks
  c.records stop

theorem orKeep_tally (c : Call) (s : Statement) (place : Place) (f : Nat → Except Fault Tally) :
    c.orKeep (do
      let id ← Stop.ofError (c.numbering.naturalId s place)
      let t ← Stop.ofFault (f id)
      return { c with tally := t }) =
    (c.numbering.find? s place).elim (.ok c) fun id => (fun t => { c with tally := t }) <$> f id := by
  unfold Numbering.naturalId
  cases c.numbering.find? s place with
  | none => rfl
  | some id =>
    show c.orKeep (do let t ← Stop.ofFault (f id); return { c with tally := t }) = _ <$> f id
    cases f id <;> rfl

/-- A report reaches the tally under the natural id of its statement. -/
theorem take_eq (c : Call) (hook : TimedHook (Statement × Place)) :
    c.take hook = (hook.rename? fun a => c.numbering.find? a.1 a.2).elim (.ok c) fun hook =>
      (fun t => { c with tally := t }) <$> c.tally.take hook := by
  cases hook with
  | begin a now =>
    refine (c.orKeep_tally a.1 a.2 fun id => c.tally.begin id now).trans ?_
    rw [TimedHook.rename?, Option.elim_map]
    rfl
  | finish a now rows isError =>
    refine (c.orKeep_tally a.1 a.2 fun id => c.tally.finish id now rows isError).trans ?_
    rw [TimedHook.rename?, Option.elim_map]
    rfl

/-- Reports about the statements of its own tree reach the tally of a call under their positions. -/
theorem takeAll_locate {p : Procedure} {c : Call} (hbuild : Numbering.build p = .ok c.numbering)
    {hooks : List (TimedHook Nat)} (hwhat : ∀ hook ∈ hooks, hook.what < p.body.count) :
    c.takeAll (hooks.map fun hook => hook.rename p.locate) =
      (fun t => { c with tally := t }) <$> hooks.foldlM Tally.take c.tally := by
  induction hooks generalizing c with
  | nil => rfl
  | cons hook hooks ih =>
    have hlt := hwhat hook (by simp)
    have hs : p.body.preorder[hook.what]? = some (p.body.preorder.getD hook.what p.body) := by
      rw [← length_preorder] at hlt
      simp [List.getElem?_eq_getElem hlt]
    have hname : (hook.rename p.locate).rename? (fun a => c.numbering.find? a.1 a.2) = some hook :=
      TimedHook.rename?_rename (Numbering.find?_of_build hbuild hs)
    rw [takeAll, List.map_cons, List.foldlM_cons, List.foldlM_cons, take_eq, hname, Option.elim_some]
    cases htake : c.tally.take hook with
    | error f => rfl
    | ok t =>
      exact ih (c := { c with tally := t }) hbuild fun hook' hhook' => hwhat hook' (by simp [hhook'])

/-- A call of a copy whose tally is within bounds. -/
structure Timed (c : Call) (p : Procedure) (now : Counter) (n rows : Nat) : Prop where
  procedure : c.procedure = p
  numbering : Numbering.build p = .ok c.numbering
  size : c.tally.size = p.body.count
  tracked : c.tally.Tracked
  within : c.tally.Within now n rows

section Timed

variable {c : Call} {p : Procedure} {now : Counter} {n rows : Nat}

theorem timed_new {m : Numbering} (h : Numbering.build p = .ok m) (now : Counter) :
    Timed ⟨p, m, Tally.new m now⟩ p now 0 0 :=
  ⟨rfl, h, (follows_new h now).size_eq, (Tally.new_eq m now).2.1, (Tally.new_timely m now).1⟩

theorem Timed.later (h : c.Timed p now n rows) {now' : Counter} (hle : now ≤ now') : c.Timed p now' n rows :=
  ⟨h.procedure, h.numbering, h.size, h.tracked, h.within.later hle⟩

/-- The call after an operation of its tally. -/
theorem Timed.of_tally (h : c.Timed p now n rows) {t : Tally} {n' rows' : Nat} (htracked : t.Tracked)
    (hsites : t.sites = c.tally.sites) (hwithin : t.Within now n' rows') :
    Timed { c with tally := t } p now n' rows' :=
  ⟨h.procedure, h.numbering,
    by rw [← Tally.length_sites, hsites, Tally.length_sites, h.size], htracked, hwithin⟩

/-- One more report keeps all times, refused or not. -/
theorem Timed.endsIn_take {hook : TimedHook (Statement × Place)} (h : c.Timed p hook.now n rows) :
    EndsIn (fun c' => c'.Timed p hook.now (n + 1) (rows + hook.rows) ∧
        c'.tally.startedAt = c.tally.startedAt ∧ ∀ i, c'.tally.spent hook.now i = c.tally.spent hook.now i)
      (Overflow (n + 1) (rows + hook.rows)) (c.take hook) := by
  rw [take_eq]
  cases hhook : hook.rename? fun a => c.numbering.find? a.1 a.2 with
  | none =>
    exact .ok ⟨⟨h.procedure, h.numbering, h.size, h.tracked,
      h.within.mono (Nat.le_succ n) (Nat.le_add_right _ _)⟩, rfl, fun _ => rfl⟩
  | some hook' =>
    have hsame : hook'.now = hook.now ∧ hook'.rows = hook.rows := by
      cases hook <;>
        · obtain ⟨i, -, rfl⟩ := Option.map_eq_some_iff.1 hhook
          exact ⟨rfl, rfl⟩
    have hwithin : c.tally.Within hook'.now n rows := by rw [hsame.1]; exact h.within
    have htake := hwithin.endsIn_take h.tracked
    rw [hsame.1, hsame.2] at htake
    exact htake.map fun t ht => ⟨h.of_tally ht.2.1 ht.2.2.1 ht.1.within, ht.1.startedAt, ht.1.spent⟩

/-! ### Records -/

/-- The time of a statement at the end of a call.  A root that never began has run for the whole call. -/
def measured (c : Call) (stop : Counter) (i : Nat) : Nat :=
  if i = 0 ∧ c.tally.begun 0 = 0 then stop.toNat - c.tally.startedAt.toNat else c.tally.spent stop i

theorem Timed.measured_le {stop : Counter} (h : c.Timed p stop n rows) (i : Nat) :
    c.measured stop i ≤ stop.toNat - c.tally.startedAt.toNat := by
  unfold measured
  split_ifs
  · exact le_rfl
  · exact h.within.spent_le i

/-- The records of a call: one for each statement, with its own time. -/
structure OwnTimes (body : Statement) (T : Nat → Nat) (records : List Record) : Prop where
  length : records.length = body.count
  own : AllFrom (fun k s => ∃ x, records[k]? = some x ∧ x.totalTime.toNat = own T k s) 0 body.preorder
  sum : (records.map fun x => x.totalTime.toNat).sum = inclusive T 0 body

/-- A call whose times fit leaves the own times that belong to what it has measured. -/
theorem Timed.endsIn_records {stop : Counter} (h : c.Timed p stop n rows)
    (hfit : inclusive (c.measured stop) 0 p.body < 2 ^ 64) :
    EndsIn (fun answer => ∃ records, answer = .ok records ∧ OwnTimes p.body (c.measured stop) records)
      (Overflow n rows) (c.records stop) := by
  unfold Call.records
  have hclose := h.within.endsIn_closeOpen.and_ok fun a ha => Tally.closeOpen_eq_ok h.tracked ha
  refine hclose.bind fun a ha => ?_
  obtain ⟨t, k⟩ := a
  obtain ⟨htimely, hsites, hidle, hbegun, -⟩ := ha
  dsimp only at htimely hsites hidle hbegun ⊢
  have hsize : t.size = p.body.count := by
    rw [← Tally.length_sites, hsites, Tally.length_sites, h.size]
  have hexec : t.exec 0 = c.tally.begun 0 := by
    rw [← hbegun, Tally.begun, hidle]
    rfl
  have helapsed : (t.creditEntry stop).elapsed = c.measured stop := by
    funext i
    rw [Tally.elapsed_creditEntry (by rw [hsize]; exact p.body.count_pos), hexec, htimely.startedAt,
      Tally.elapsed_of_closed (hidle i) stop, htimely.spent, measured]
  have hsize' : (t.creditEntry stop).size = p.body.count := by
    rw [← hsize]
    exact Array.size_modify ..
  obtain ⟨v, t', hfold, -, hsize'', hown⟩ := Tally.fold_gives h.numbering (by rwa [helapsed])
  rw [h.procedure, hfold]
  rw [helapsed] at hown
  have hsum := sum_own hown
  refine .ok ⟨t'.toRecords, rfl, ?_, fun k s hs => ?_, ?_⟩
  · rw [← hsize', ← hsize'']
    simp [Tally.toRecords, Tally.size]
  · have hk : k < t'.size := by
      rw [hsize'', hsize', ← length_preorder]
      exact (List.getElem?_eq_some_iff.1 hs).1
    have hx : t'.timers[k]? = some t'.timers[k] := Array.getElem?_eq_getElem hk
    refine ⟨t'.timers[k].toRecord, by simp [Tally.toRecords, hx], ?_⟩
    rw [← hown k s hs]
    simp [Tally.elapsed, hx, Timer.toRecord]
  · rw [Tally.map_totalTime_toRecords, hsize'', hsize', ← hsum, Nat.zero_add, ← Finset.range_eq_Ico]
    rfl

end Timed

end Call

end ProcProfile
