import Mathlib.Tactic
import ProcProfile.Proofs.Tally

/-!
# What a tally measures

The time of a statement is what its timer has measured and the part of the running execution up to now.  No
begin and no end changes the time of any statement at the moment when it is reported: time is spent between the
reports, and only on what runs.  On a clock that never goes back, times stay within the time since the call
began, so that only counts and rows may overflow.

* `Tally.spent`: the time of a statement up to now;
* `Tally.Within`: times within the time of the call, and counts within bounds;
* `Tally.Timely`: a tally that an operation left, with the times of the one before;
* `Tally.Within.spent_later`: time passes for running statements only;
* `TimedHook`, `Tally.take`, `Tally.endsIn_take`: one report, and what it leaves.
-/

namespace ProcProfile

/-- The time of a statement up to now. -/
def Timer.spent (t : Timer) (now : Counter) : Nat :=
  t.elapsed.toNat + t.startedAt.elim 0 fun startedAt => now.toNat - startedAt.toNat

/-- A sum overflowed, and `n` or `rows` is as large as no counter is. -/
def Overflow (n rows : Nat) (f : Fault) : Prop := f = .addOverflow ∧ (2 ^ 64 ≤ n ∨ 2 ^ 64 ≤ rows)

theorem Overflow.mono {n n' rows rows' : Nat} {f : Fault} (h : Overflow n rows f) (hn : n ≤ n')
    (hrows : rows ≤ rows') : Overflow n' rows' f :=
  ⟨h.1, h.2.imp hn.trans' hrows.trans'⟩

/-- A timer of a call that began at `start`, with at most `n` executions and `rows` rows. -/
structure Timer.Within (t : Timer) (start now : Counter) (n rows : Nat) : Prop where
  spent : t.spent now ≤ now.toNat - start.toNat
  began : ∀ startedAt, t.startedAt = some startedAt → startedAt ≤ now
  exec : t.execCount.toNat + t.isOpen.toNat ≤ n
  err : t.errorCount.toNat ≤ t.execCount.toNat
  rows : t.rows.toNat ≤ rows

namespace Timer.Within

variable {t : Timer} {start now : Counter} {n rows : Nat}

theorem mono (h : t.Within start now n rows) {n' rows' : Nat} (hn : n ≤ n') (hrows : rows ≤ rows') :
    t.Within start now n' rows' :=
  ⟨h.spent, h.began, h.exec.trans hn, h.err, h.rows.trans hrows⟩

/-- Time passes for a timer that runs. -/
theorem spent_later (h : t.Within start now n rows) {now' : Counter} (hle : now ≤ now') :
    t.spent now' = t.spent now + if t.isOpen then now'.toNat - now.toNat else 0 := by
  unfold Timer.spent Timer.isOpen
  cases hs : t.startedAt with
  | none => simp
  | some startedAt =>
    have hbegan := UInt64.le_iff_toNat_le.1 (h.began startedAt hs)
    rw [UInt64.le_iff_toNat_le] at hle
    simp only [Option.elim_some, Option.isSome_some, if_true]
    omega

theorem later (h : t.Within start now n rows) (hstart : start ≤ now) {now' : Counter} (hle : now ≤ now') :
    t.Within start now' n rows := by
  refine ⟨?_, fun startedAt hs => UInt64.le_trans (h.began startedAt hs) hle, h.exec, h.err, h.rows⟩
  have hspent := h.spent
  rw [h.spent_later hle]
  rw [UInt64.le_iff_toNat_le] at hstart hle
  split_ifs <;> omega

/-- Stopping a timer moves the running time to the measured time. -/
theorem endsIn_stop (h : t.Within start now n rows) {startedAt : Counter} (hs : t.startedAt = some startedAt)
    (more : Counter) (isError : Bool) :
    EndsIn (fun t' => t'.Within start now n (rows + more.toNat) ∧ t'.spent now = t.spent now)
      (Overflow n (rows + more.toNat)) (t.stop startedAt now more isError) := by
  have hspent : t.spent now = t.elapsed.toNat + (Counter.since now startedAt).toNat := by
    rw [Timer.spent, hs, Option.elim_some, Counter.toNat_since]
  have hexec := h.exec
  rw [Timer.isOpen, hs, Option.isSome_some, Bool.toNat_true] at hexec
  have htime := hspent ▸ h.spent
  have hrows := h.rows
  have herr := h.err
  have hone : (1 : Counter).toNat = 1 := rfl
  unfold Timer.stop
  -- the time cannot overflow, since it is a part of the time of the call
  refine .bind (Counter.endsIn_add fun hover => ?_) fun elapsed helapsed =>
    .bind (Counter.endsIn_add fun hover => ⟨rfl, .inr (by omega)⟩) fun rows' hrows' =>
    .bind (Counter.endsIn_add fun hover => ⟨rfl, .inl (by omega)⟩) fun exec hexec' => ?_
  · have := now.toNat_lt
    omega
  · have hleft : ∀ err : Counter, err.toNat ≤ t.errorCount.toNat + 1 →
        Timer.Within
          ⟨t.line, t.fingerprint, elapsed, max t.maxElapsed (Counter.since now startedAt), rows', exec, err, none⟩
          start now n (rows + more.toNat) := by
      intro err herr'
      refine ⟨?_, fun s hs => (by cases hs), ?_, ?_, by dsimp only; omega⟩
      · simp only [Timer.spent, Option.elim_none]
        omega
      · simp only [Timer.isOpen, Option.isSome_none, Bool.toNat_false]
        omega
      · dsimp only
        omega
    have hsame : elapsed.toNat + 0 = t.spent now := by omega
    cases isError with
    | false => exact .ok ⟨hleft t.errorCount (by omega), hsame⟩
    | true =>
      rw [if_pos rfl]
      refine .bind (Counter.endsIn_add fun hover => ⟨rfl, .inl (by omega)⟩) fun err herr' => ?_
      exact .ok ⟨hleft err (by omega), hsame⟩

end Timer.Within

namespace Tally

/-- The time of a statement up to now. -/
def spent (t : Tally) (now : Counter) (i : Nat) : Nat := t.timers[i]?.elim 0 fun timer => timer.spent now

/-- The tally of a call that began no later than now, with timers within bounds. -/
structure Within (t : Tally) (now : Counter) (n rows : Nat) : Prop where
  started : t.startedAt ≤ now
  timer : ∀ (i : Nat) (timer : Timer), t.timers[i]? = some timer → timer.Within t.startedAt now n rows

/-- A tally that an operation left, with the times of the tally before. -/
structure Timely (t : Tally) (now : Counter) (n rows : Nat) (t' : Tally) : Prop where
  within : t'.Within now n rows
  startedAt : t'.startedAt = t.startedAt
  spent : ∀ i, t'.spent now i = t.spent now i

section Within

variable {t t' t'' : Tally} {now : Counter} {n rows : Nat}

theorem Within.mono (h : t.Within now n rows) {n' rows' : Nat} (hn : n ≤ n') (hrows : rows ≤ rows') :
    t.Within now n' rows' :=
  ⟨h.started, fun i timer htimer => (h.timer i timer htimer).mono hn hrows⟩

theorem Within.later (h : t.Within now n rows) {now' : Counter} (hle : now ≤ now') :
    t.Within now' n rows :=
  ⟨UInt64.le_trans h.started hle, fun i timer htimer => (h.timer i timer htimer).later h.started hle⟩

theorem Within.spent_le (h : t.Within now n rows) (i : Nat) :
    t.spent now i ≤ now.toNat - t.startedAt.toNat := by
  unfold Tally.spent
  cases htimer : t.timers[i]? with
  | none => exact Nat.zero_le _
  | some timer => exact (h.timer i timer htimer).spent

/-- Between two reports, time is spent on what runs. -/
theorem Within.spent_later (h : t.Within now n rows) {now' : Counter} (hle : now ≤ now') (i : Nat) :
    t.spent now' i = t.spent now i + if t.isOpen i then now'.toNat - now.toNat else 0 := by
  unfold Tally.spent Tally.isOpen
  cases htimer : t.timers[i]? with
  | none => simp
  | some timer => simpa using (h.timer i timer htimer).spent_later hle

theorem Within.of_timers (h : t.Within now n rows) (htimers : t'.timers = t.timers)
    (hstart : t'.startedAt = t.startedAt) : t.Timely now n rows t' := by
  refine ⟨⟨hstart ▸ h.started, fun i timer htimer => ?_⟩, hstart, fun i => by rw [spent, htimers, spent]⟩
  rw [hstart]
  exact h.timer i timer (htimers ▸ htimer)

theorem Within.timely (h : t.Within now n rows) : t.Timely now n rows t := h.of_timers rfl rfl

theorem Timely.trans {n' rows' : Nat} (h : t.Timely now n rows t') (h' : t'.Timely now n' rows' t'') :
    t.Timely now n' rows' t'' :=
  ⟨h'.within, h'.startedAt.trans h.startedAt, fun i => (h'.spent i).trans (h.spent i)⟩

/-- One timer changes, and keeps its time. -/
theorem Within.changed (h : t.Within now n rows) {id : Nat} {timer timer' : Timer} {n' rows' : Nat}
    (hchanged : Changed t id timer' t') (hstart : t'.startedAt = t.startedAt)
    (htimer : t.timers[id]? = some timer) (hwithin : timer'.Within t.startedAt now n' rows')
    (hspent : timer'.spent now = timer.spent now) (hn : n ≤ n') (hrows : rows ≤ rows') :
    t.Timely now n' rows' t' := by
  refine ⟨⟨hstart ▸ h.started, fun i other hother => ?_⟩, hstart, fun i => ?_⟩
  · rw [hchanged.getElem?] at hother
    rw [hstart]
    split_ifs at hother with hi
    · cases hother
      exact hwithin
    · exact (h.timer i other hother).mono hn hrows
  · unfold Tally.spent
    rw [hchanged.getElem?]
    split_ifs with hi
    · rw [hi, htimer, Option.elim_some, Option.elim_some, hspent]
    · rfl

/-! ### Operations keep times -/

theorem Within.endsIn_close (h : t.Within now n rows) (id : Nat) (more : Counter) (isError : Bool) :
    EndsIn (fun a => t.Timely now n (rows + more.toNat) a.1) (Overflow n (rows + more.toNat))
      (t.close id now more isError) := by
  have hidle : t.Timely now n (rows + more.toNat) t := (h.mono le_rfl (Nat.le_add_right _ _)).timely
  unfold Tally.close
  split
  · exact .ok hidle
  · rename_i timer htimer
    split
    · exact .ok hidle
    · rename_i startedAt hs
      refine ((h.timer id timer htimer).endsIn_stop hs more isError).bind fun timer' htimer' => ?_
      exact .ok (h.changed (changed_set htimer timer') rfl htimer htimer'.1 htimer'.2 le_rfl
        (Nat.le_add_right _ _))

theorem Within.endsIn_closeAll (h : t.Within now n rows) (ids : List Nat) :
    EndsIn (fun a => t.Timely now n rows a.1) (Overflow n rows) (t.closeAll now ids) := by
  induction ids generalizing t with
  | nil => exact .ok h.timely
  | cons id ids ih =>
    rw [closeAll]
    refine (h.endsIn_close id 0 true).bind fun a ha => ?_
    exact (ih ha.within).bind fun b hb => .ok (ha.trans hb)

theorem Within.endsIn_closeUntracked (h : t.Within now n rows) (keep : Option Nat) :
    EndsIn (fun a => t.Timely now n rows a.1) (Overflow n rows) (t.closeUntracked keep now) :=
  (h.endsIn_closeAll _).bind fun _ ha => .ok (ha.trans (ha.within.of_timers rfl rfl))

/-- Ending a statement keeps all times. -/
theorem Within.endsIn_finish (h : t.Within now n rows) (id : Nat) (more : Counter) (isError : Bool) :
    EndsIn (fun t' => t.Timely now n (rows + more.toNat) t') (Overflow n (rows + more.toNat))
      (t.finish id now more isError) := by
  have hbad : ∀ f, Overflow n rows f → Overflow n (rows + more.toNat) f :=
    fun f hf => hf.mono le_rfl (Nat.le_add_right _ _)
  have hclose : ∀ t₁, t.Timely now n rows t₁ →
      EndsIn (fun t' => t.Timely now n (rows + more.toNat) t') (Overflow n (rows + more.toNat))
        (t₁.close id now more isError >>= fun a => .ok a.1) :=
    fun t₁ h₁ => (h₁.within.endsIn_close id more isError).bind fun a ha => .ok (h₁.trans ha)
  unfold Tally.finish
  dsimp only
  split_ifs with hmem hrun
  · have hpopped : t.Timely now n rows { t with stack := (t.stack.dropWhile (· != id)).tail } :=
      h.of_timers rfl rfl
    refine ((hpopped.within.endsIn_closeAll _).imp (fun _ ha => ha) hbad).bind fun a ha => ?_
    have ha := hpopped.trans ha
    split_ifs with hpos
    · have hrest := (ha.within.endsIn_closeUntracked (some id)).imp (fun _ hb => hb) hbad
      exact (hrest.map fun b hb => ha.trans hb).bind hclose
    · exact hclose a.1 ha
  · exact hclose { t with untracked := t.untracked - 1 } (h.of_timers rfl rfl)
  · exact hclose t h.timely

/-- A statement that starts now has spent no time yet. -/
theorem Within.start (h : t.Within now n rows) {id : Nat} (hidle : t.isOpen id = false) :
    t.Timely now (n + 1) rows (t.start id now) := by
  have hstart : (t.start id now).startedAt = t.startedAt := by
    unfold Tally.start
    dsimp only
    split_ifs <;> rfl
  cases htimer : t.timers[id]? with
  | none =>
    refine (h.mono (Nat.le_succ n) le_rfl).of_timers ?_ hstart
    refine Array.ext_getElem? fun i => ?_
    rw [timers_start, Array.getElem?_modify]
    split_ifs with hi
    · rw [← hi, htimer, Option.map_none]
    · rfl
  | some timer =>
    have hwithin := h.timer id timer htimer
    have hclosed : timer.startedAt = none := by
      simpa [isOpen, htimer, Timer.isOpen] using hidle
    have hsame : Timer.spent { timer with startedAt := some now } now = timer.spent now := by
      simp [Timer.spent, hclosed]
    have hexec := hwithin.exec
    rw [Timer.isOpen, hclosed, Option.isSome_none, Bool.toNat_false] at hexec
    refine h.changed (changed_start htimer now) hstart htimer ⟨?_, ?_, ?_, hwithin.err, hwithin.rows⟩ hsame
      (Nat.le_succ n) le_rfl
    · rw [hsame]
      exact hwithin.spent
    · rintro s ⟨⟩
      exact UInt64.le_refl now
    · simpa [Timer.isOpen] using hexec

/-- Beginning a statement keeps all times. -/
theorem Within.endsIn_begin (h : t.Within now n rows) (htracked : t.Tracked) (id : Nat) :
    EndsIn (fun t' => t.Timely now (n + 1) rows t') (Overflow (n + 1) rows) (t.begin id now) := by
  unfold Tally.begin
  split_ifs with hid hrun
  · have hfinish := (h.endsIn_finish id 0 true).and_ok fun t' ht' => (finish_eq_ok htracked ht').2.2.1
    refine (hfinish.imp (fun _ ha => ha) fun f hf => hf.mono (Nat.le_succ n) le_rfl).bind fun t₁ h₁ => ?_
    exact .ok (h₁.1.trans (h₁.1.within.start h₁.2))
  · exact .ok (h.start (by simpa using hrun))
  · exact .ok (h.mono (Nat.le_succ n) le_rfl).timely

/-- Closing what runs at the end of a call keeps all times. -/
theorem Within.endsIn_closeOpen (h : t.Within now n rows) :
    EndsIn (fun a => t.Timely now n rows a.1) (Overflow n rows) (t.closeOpen now) := by
  have hpopped : t.Timely now n rows { t with stack := [] } := h.of_timers rfl rfl
  refine (hpopped.within.endsIn_closeAll t.stack).bind fun a ha => ?_
  have ha := hpopped.trans ha
  dsimp only
  split_ifs with hpos
  · exact (ha.within.endsIn_closeUntracked none).bind fun b hb => .ok (ha.trans hb)
  · exact .ok ha

end Within

end Tally

/-! ### Reports -/

/-- A report that a statement begins or ends, with the time of the report.  Statements may be named in any
way. -/
inductive TimedHook (α : Type) where
  | begin (what : α) (now : Counter)
  | finish (what : α) (now rows : Counter) (isError : Bool)
  deriving DecidableEq, Repr

namespace TimedHook

variable {α β : Type}

def now : TimedHook α → Counter
  | .begin _ now => now
  | .finish _ now _ _ => now

/-- The rows that a report adds. -/
def rows : TimedHook α → Nat
  | .begin .. => 0
  | .finish _ _ rows _ => rows.toNat

/-- Whether a report is that a statement begins. -/
def begins [DecidableEq α] (i : α) : TimedHook α → Bool
  | .begin what _ => i = what
  | .finish .. => false

/-- The statement that a report is about. -/
def what : TimedHook α → α
  | .begin what _ => what
  | .finish what _ _ _ => what

/-- The same report with another name for the statement. -/
def rename (f : α → β) : TimedHook α → TimedHook β
  | .begin what now => .begin (f what) now
  | .finish what now rows isError => .finish (f what) now rows isError

/-- The same report with another name for the statement, if it has one. -/
def rename? (f : α → Option β) : TimedHook α → Option (TimedHook β)
  | .begin what now => (f what).map fun what => .begin what now
  | .finish what now rows isError => (f what).map fun what => .finish what now rows isError

/-- A name that leads back leaves the report as it was. -/
theorem rename?_rename {f : α → β} {g : β → Option α} {hook : TimedHook α}
    (h : g (f hook.what) = some hook.what) : (hook.rename f).rename? g = some hook := by
  cases hook <;> exact congrArg (Option.map _) h

end TimedHook

namespace Tally

/-- One report about a statement by its natural id. -/
def take (t : Tally) : TimedHook Nat → Except Fault Tally
  | .begin id now => t.begin id now
  | .finish id now rows isError => t.finish id now rows isError

/-- A report keeps the times of all statements, and only the counts of its statement grow. -/
theorem Within.endsIn_take {t : Tally} {hook : TimedHook Nat} {n rows : Nat} (h : t.Within hook.now n rows)
    (htracked : t.Tracked) :
    EndsIn (fun t' => t.Timely hook.now (n + 1) (rows + hook.rows) t' ∧ t'.Tracked ∧ t'.sites = t.sites ∧
        ∀ i < t.size, t'.begun i = t.begun i + if hook.begins i then 1 else 0)
      (Overflow (n + 1) (rows + hook.rows)) (t.take hook) := by
  cases hook with
  | begin id now =>
    refine (h.endsIn_begin htracked id).and_ok fun t' ht' => ?_
    by_cases hid : id < t.size
    · obtain ⟨hsites, htracked', hbegun, -⟩ := begin_eq_ok htracked hid ht'
      refine ⟨htracked', hsites, fun i _ => ?_⟩
      simp [hbegun, TimedHook.begins]
    · unfold Tally.begin at ht'
      rw [if_neg hid] at ht'
      cases ht'
      refine ⟨htracked, rfl, fun i hi => ?_⟩
      have hne : i ≠ id := by omega
      simp [TimedHook.begins, hne]
  | finish id now more isError =>
    have hfinish := (h.endsIn_finish id more isError).imp
      (fun t' ht' => Timely.trans ht' (ht'.within.mono (Nat.le_succ n) le_rfl).timely)
      fun f hf => hf.mono (Nat.le_succ n) le_rfl
    refine hfinish.and_ok fun t' ht' => ?_
    obtain ⟨hsites, htracked', -, hbegun, -⟩ := finish_eq_ok htracked ht'
    exact ⟨htracked', hsites, fun i _ => by simp [hbegun, TimedHook.begins]⟩

/-- A call that begins has spent no time. -/
theorem new_timely (m : Numbering) (now : Counter) :
    (new m now).Within now 0 0 ∧ ∀ i, (new m now).spent now i = 0 := by
  refine ⟨⟨UInt64.le_refl now, fun i timer hi => ?_⟩, fun i => ?_⟩
  · obtain ⟨line, fingerprint, rfl⟩ := ofLine_of_new hi
    exact ⟨Nat.zero_le _, fun _ hs => (by cases hs), le_rfl, le_rfl, le_rfl⟩
  · unfold spent
    cases hi : (new m now).timers[i]? with
    | none => rfl
    | some timer =>
      obtain ⟨line, fingerprint, rfl⟩ := ofLine_of_new hi
      rfl

end Tally

end ProcProfile
