import Mathlib.Data.Finset.Card
import Mathlib.Tactic
import ProcProfile.Proofs.Tally.Accounts
import ProcProfile.Proofs.Tally.Sane

/-!
# Which statements run

A tally says three times what runs: by its timers, by its stack, and by the number of statements that began above a
full stack.  That number goes up by one, down by one or to zero in different places, and a begin may be an end as well.
Still the three never contradict each other, whatever is reported: an end without a begin, a begin without an end, a
statement that does not exist, a clock that goes back.

* `Tally.running`: the statements that run, by the timers;
* `Tally.Exact`: the stack and the number of untracked statements agree with the timers;
* `Tally.Exact.endsIn_finish`, `Tally.Exact.start`, `Tally.Exact.endsIn_begin`, `Tally.Exact.endsIn_closeOpen`: each
  operation keeps it so;
* `TallyEvent`, `Tally.run`, `Tally.Overruns`: any sequence of operations, and what alone can stop it;
* `Tally.running_known_exactly`: what holds after every sequence.
-/

namespace ProcProfile

namespace Tally

variable {t t' : Tally} {now : Counter} {i id : Nat}

/-- The statements that run. -/
def running (t : Tally) : Finset Nat := (Finset.range t.size).filter fun i => t.isOpen i = true

theorem mem_running : i ∈ t.running ↔ t.isOpen i = true := by
  rw [running, Finset.mem_filter, Finset.mem_range]
  exact and_iff_right_of_imp lt_size_of_isOpen

/-- The stack holds different statements, all of which run, and no more than it has room for.  As many statements as
run and are not on the stack are counted as untracked, and there are none of these unless the stack is full. -/
structure Exact (t : Tally) : Prop where
  room : t.stack.length ≤ maxOpen
  nodup : t.stack.Nodup
  stack : ∀ i ∈ t.stack, i ∈ t.running
  untracked : t.untracked = t.beyond.card
  full : t.untracked ≠ 0 → t.stack.length = maxOpen

namespace Exact

theorem isOpen (h : t.Exact) (hi : i ∈ t.stack) : t.isOpen i = true := mem_running.1 (h.stack i hi)

theorem tracked (h : t.Exact) : t.Tracked := h.untracked.ge

theorem not_mem_stack (h : t.Exact) (hidle : t.isOpen id = false) : id ∉ t.stack := by
  intro hmem
  rw [h.isOpen hmem] at hidle
  cases hidle

/-- Every statement that runs is on the stack or counted as untracked. -/
theorem card_running (h : t.Exact) : t.running.card = t.stack.length + t.untracked := by
  have hstack : t.running.filter (· ∈ t.stack) = t.stack.toFinset := by
    ext i
    rw [Finset.mem_filter, List.mem_toFinset]
    exact and_iff_right_of_imp (h.stack i)
  have hbeyond : t.running.filter (· ∉ t.stack) = t.beyond := by
    ext i
    rw [Finset.mem_filter, mem_running, mem_beyond]
  rw [← Finset.card_filter_add_card_filter_not (· ∈ t.stack), hstack, hbeyond, List.toFinset_card_of_nodup h.nodup,
    h.untracked]

/-- If nothing is untracked, the stack is all that runs. -/
theorem of_stack (hroom : t.stack.length ≤ maxOpen) (hnodup : t.stack.Nodup)
    (hstack : ∀ i, t.isOpen i = true ↔ i ∈ t.stack) (huntracked : t.untracked = 0) : t.Exact := by
  refine ⟨hroom, hnodup, fun i hi => mem_running.2 ((hstack i).2 hi), ?_, absurd huntracked⟩
  rw [huntracked, eq_comm, Finset.card_eq_zero]
  refine Finset.eq_empty_of_forall_notMem fun i hi => ?_
  rw [mem_beyond, hstack] at hi
  exact hi.2 hi.1

end Exact

/-- When a call begins, nothing runs. -/
theorem exact_new (m : Numbering) (start : Counter) : (new m start).Exact := by
  refine .of_stack (Nat.zero_le _) List.nodup_nil (fun i => ?_) rfl
  rw [isOpen_new]
  exact iff_of_false Bool.false_ne_true List.not_mem_nil

/-! ### Ending a statement -/

/-- The end of a statement that does not run changes nothing. -/
theorem Exact.finish_of_idle (h : t.Exact) (hidle : t.isOpen id = false) (now rows : Counter) (isError : Bool) :
    t.finish id now rows isError = .ok t := by
  have hcontains : t.stack.contains id = false := by simpa using h.not_mem_stack hidle
  have hclose : t.close id now rows isError = .ok (t, false) := by
    unfold close
    unfold Tally.isOpen at hidle
    cases htimer : t.timers[id]? with
    | none => rfl
    | some timer =>
      rw [htimer] at hidle
      have hstart : timer.startedAt = none := by simpa [Timer.isOpen] using hidle
      simp only [hstart]
  rw [finish, hcontains, hidle, if_neg Bool.false_ne_true, if_neg Bool.false_ne_true]
  simp only [pure_bind, hclose]
  rfl

section Finish

variable {rows : Nat} {isError : Bool}

/-- A statement on the stack ends: what goes on is what is left of the stack, so that the stack has room again. -/
theorem Exact.of_unwound (h : t.Exact) (hmem : id ∈ t.stack) (hclosed : t.Closes now (t.endings id rows isError) t')
    (hstack : t'.stack = t.outer id) (huntracked : t'.untracked = 0) : t'.Exact := by
  have hsuffix := t.outer_suffix id
  have hself : id ∉ t.outer id :=
    (List.nodup_cons.1 ((cons_outer_suffix hmem).sublist.nodup h.nodup)).1
  refine .of_stack ?_ ?_ (fun i => ?_) huntracked
  · rw [hstack]
    exact hsuffix.length_le.trans h.room
  · rw [hstack]
    exact hsuffix.sublist.nodup h.nodup
  · rw [hclosed.isOpen_iff, hstack, endings]
    by_cases hi : i = id
    · simp [hi, hself]
    · simp only [hi, hmem, if_false, true_and]
      constructor
      · rintro ⟨-, hnone⟩
        by_contra hout
        rw [if_pos hout] at hnone
        cases hnone
      · intro hout
        exact ⟨h.isOpen (hsuffix.subset hout), if_neg (not_not.2 hout)⟩

/-- A statement that is not on the stack ends: it is one less beyond the stack, if it ran. -/
theorem Exact.of_closed_beyond (h : t.Exact) (hmem : id ∉ t.stack)
    (hclosed : t.Closes now (.single id rows isError) t') (hstack : t'.stack = t.stack)
    (huntracked : t'.untracked = t.untracked - (t.isOpen id).toNat) : t'.Exact := by
  have hrunning : ∀ i, t'.isOpen i = true ↔ t.isOpen i = true ∧ i ≠ id := by
    intro i
    rw [hclosed.isOpen_iff, Endings.single]
    by_cases hi : i = id <;> simp [hi]
  have hbeyond : t'.beyond = t.beyond.erase id := by
    ext i
    rw [Finset.mem_erase, mem_beyond, mem_beyond, hrunning, hstack]
    tauto
  refine ⟨hstack ▸ h.room, hstack ▸ h.nodup, fun i hi => ?_, ?_, fun hsome => ?_⟩
  · rw [hstack] at hi
    exact mem_running.2 ((hrunning i).2 ⟨h.isOpen hi, fun he => hmem (he ▸ hi)⟩)
  · rw [huntracked, hbeyond, h.untracked]
    cases hrun : t.isOpen id with
    | true => rw [Finset.card_erase_of_mem (mem_beyond.2 ⟨hrun, hmem⟩), Bool.toNat_true]
    | false =>
      have hidle : id ∉ t.beyond := by simp [mem_beyond, hrun]
      rw [Finset.erase_eq_of_notMem hidle, Bool.toNat_false, Nat.sub_zero]
  · -- the stack was full already
    rw [hstack]
    refine h.full fun hzero => hsome ?_
    rw [huntracked, hzero, Nat.zero_sub]

end Finish

theorem Exact.endsIn_finish (h : t.Exact) (id : Nat) (now rows : Counter) (isError : Bool) :
    EndsIn (fun t' => t'.Exact ∧ t'.size = t.size ∧ t'.isOpen id = false)
      (t.Overflows now (t.endings id rows.toNat isError)) (t.finish id now rows isError) := by
  refine (accounts_finish h.tracked h.nodup id now rows isError).imp ?_ fun f hf => hf
  rintro t' ⟨hclosed, hstack, huntracked⟩
  refine ⟨?_, hclosed.size, ?_⟩
  · -- what is beyond the stack began inside every statement on it, so that it ends with any of these
    by_cases hmem : id ∈ t.stack
    · rw [if_pos hmem] at huntracked
      exact h.of_unwound hmem hclosed hstack huntracked
    · rw [if_neg hmem] at huntracked
      rw [endings_of_not_mem hmem] at hclosed
      rw [outer_of_not_mem hmem] at hstack
      exact h.of_closed_beyond hmem hclosed hstack huntracked
  · rw [Bool.eq_false_iff, ne_eq, hclosed.isOpen_iff, endings, if_pos rfl]
    simp

/-! ### Beginning a statement -/

/-- An idle statement starts: on the stack if that has room, and beyond it otherwise. -/
theorem Exact.start (h : t.Exact) (hid : id < t.size) (hidle : t.isOpen id = false) (now : Counter) :
    (t.start id now).Exact := by
  have hnot := h.not_mem_stack hidle
  have hrunning := isOpen_start hid now
  by_cases hshort : t.stack.length < maxOpen
  · have hstack : (t.start id now).stack = id :: t.stack := by rw [stack_start, if_pos hshort]
    -- a stack with room has nothing beyond it
    have hzero : t.untracked = 0 := by
      by_contra hsome
      exact hshort.ne (h.full hsome)
    refine .of_stack ?_ ?_ (fun i => ?_) ?_
    · rw [hstack]
      exact hshort
    · rw [hstack]
      exact List.nodup_cons.2 ⟨hnot, h.nodup⟩
    · rw [hrunning, hstack, List.mem_cons]
      exact or_congr_right ⟨h.tracked.mem_stack hzero, h.isOpen⟩
    · rw [untracked_start, if_pos hshort, hzero]
  · have hstack : (t.start id now).stack = t.stack := by rw [stack_start, if_neg hshort]
    have hbeyond : (t.start id now).beyond = insert id t.beyond := by
      ext i
      rw [Finset.mem_insert, mem_beyond, mem_beyond, hrunning, hstack]
      by_cases hi : i = id
      · simp [hi, hnot]
      · simp [hi]
    have hnew : id ∉ t.beyond := by simp [mem_beyond, hidle]
    refine ⟨hstack ▸ h.room, hstack ▸ h.nodup, fun i hi => ?_, ?_, fun _ => ?_⟩
    · rw [hstack] at hi
      exact mem_running.2 ((hrunning i).2 (.inr (h.isOpen hi)))
    · rw [untracked_start, if_neg hshort, hbeyond, Finset.card_insert_of_notMem hnew, h.untracked]
    · rw [hstack]
      exact le_antisymm h.room (not_lt.1 hshort)

/-- How statements are ended when one begins: as with the end of that statement, if it runs. -/
def endingsOfBegin (t : Tally) (id : Nat) : Endings := if t.isOpen id then t.endings id 0 true else fun _ => none

theorem Exact.endsIn_begin (h : t.Exact) (id : Nat) (now : Counter) :
    EndsIn Exact (t.Overflows now (t.endingsOfBegin id)) (t.begin id now) := by
  by_cases hid : id < t.size
  · rw [Tally.begin, if_pos hid, endingsOfBegin]
    by_cases hrun : t.isOpen id = true
    · -- the end makes room on the stack or takes one away beyond it, and the start gives it back
      rw [if_pos hrun, if_pos hrun]
      refine (h.endsIn_finish id now 0 true).bind ?_
      rintro t' ⟨hexact, hsize, hidle⟩
      exact .ok (hexact.start (hsize ▸ hid) hidle now)
    · rw [if_neg hrun, if_neg hrun]
      exact .ok (h.start hid (Bool.eq_false_iff.2 hrun) now)
  · rw [Tally.begin, if_neg hid]
    exact .ok h

/-! ### The end of a call -/

/-- Everything is closed, and the number of closed statements is that of the statements that ran. -/
theorem Exact.endsIn_closeOpen (h : t.Exact) (now : Counter) :
    EndsIn
      (fun out => out.1.running = ∅ ∧ out.1.stack = [] ∧ out.1.untracked = 0 ∧ out.2 = t.running.card)
      (t.Overflows now (.asErrors fun _ => True)) (t.closeOpen now) := by
  refine (accounts_closeOpen h.tracked now).imp ?_ fun f hf => hf
  rintro out ⟨hclosed, hstack, huntracked, hcount⟩
  refine ⟨Finset.eq_empty_of_forall_notMem fun i hi => ?_, hstack, huntracked, ?_⟩
  · rw [mem_running, hclosed.isOpen_iff, Endings.asErrors, if_pos trivial] at hi
    cases hi.2
  · rw [hcount h.nodup, h.card_running, h.untracked, List.countP_eq_length.2 fun i hi => h.isOpen hi]

/-- A credit for the root has nothing to do with what runs. -/
theorem Exact.creditEntry (h : t.Exact) (now : Counter) : (t.creditEntry now).Exact := by
  have hopen : ∀ i, (t.creditEntry now).isOpen i = t.isOpen i := by
    intro i
    unfold Tally.creditEntry Tally.isOpen
    dsimp only
    rw [Array.getElem?_modify]
    split_ifs with hi
    · rw [← hi]
      cases t.timers[0]? with
      | none => rfl
      | some timer =>
        rw [Option.map_some, Option.any_some, Option.any_some]
        split_ifs <;> rfl
    · rfl
  have hbeyond : (t.creditEntry now).beyond = t.beyond := by
    ext i
    rw [mem_beyond, mem_beyond, hopen]
    rfl
  refine ⟨h.room, h.nodup, fun i hi => ?_, ?_, h.full⟩
  · rw [mem_running, hopen]
    exact h.isOpen hi
  · rw [hbeyond]
    exact h.untracked

end Tally

/-! ### Sequences of operations -/

/-- An operation on the tally of a call. -/
inductive TallyEvent where
  /-- A statement begins or ends. -/
  | report (hook : TimedHook Nat)
  /-- Everything that runs is closed. -/
  | closeOpen (now : Counter)
  /-- The root is credited with an execution. -/
  | creditEntry (now : Counter)
  deriving DecidableEq, Repr

def TallyEvent.now : TallyEvent → Counter
  | .report hook => hook.now
  | .closeOpen now => now
  | .creditEntry now => now

namespace Tally

/-- One operation. -/
def apply (t : Tally) : TallyEvent → Except Fault Tally
  | .report hook => t.take hook
  | .closeOpen now => (·.1) <$> t.closeOpen now
  | .creditEntry now => .ok (t.creditEntry now)

/-- Operations, one after another. -/
def run (t : Tally) (events : List TallyEvent) : Except Fault Tally := events.foldlM apply t

/-- How statements are ended by an operation. -/
def endingsOf (t : Tally) : TallyEvent → Endings
  | .report (.begin id _) => t.endingsOfBegin id
  | .report (.finish id _ rows isError) => t.endings id rows.toNat isError
  | .closeOpen _ => .asErrors fun _ => True
  | .creditEntry _ => fun _ => none

/-- At some operation, a sum in the account of a statement that is ended is as large as no counter is. -/
def Overruns : Tally → List TallyEvent → Fault → Prop
  | _, [], _ => False
  | t, event :: events, f =>
    t.Overflows event.now (t.endingsOf event) f ∨ ∃ t', t.apply event = .ok t' ∧ Overruns t' events f

variable {t t' : Tally}

theorem Exact.endsIn_apply (h : t.Exact) (event : TallyEvent) :
    EndsIn Exact (t.Overflows event.now (t.endingsOf event)) (t.apply event) := by
  cases event with
  | report hook =>
    cases hook with
    | begin id now => exact h.endsIn_begin id now
    | finish id now rows isError => exact (h.endsIn_finish id now rows isError).imp (fun _ h' => h'.1) fun _ hf => hf
  | closeOpen now =>
    refine (h.endsIn_closeOpen now).map ?_
    rintro out ⟨hrunning, hstack, huntracked, -⟩
    refine .of_stack ?_ ?_ (fun i => ?_) huntracked
    · rw [hstack]
      exact Nat.zero_le _
    · rw [hstack]
      exact List.nodup_nil
    · rw [← mem_running, hrunning, hstack]
      exact iff_of_false (Finset.notMem_empty i) List.not_mem_nil
  | creditEntry now => exact .ok (h.creditEntry now)

theorem Sane.apply (h : t.Sane) {event : TallyEvent} (hrun : t.apply event = .ok t') : t'.Sane := by
  cases event with
  | report hook =>
    cases hook with
    | begin id now => exact h.begin hrun
    | finish id now rows isError => exact h.finish hrun
  | closeOpen now =>
    obtain ⟨out, hclose, rfl⟩ := map_eq_ok_iff.1 hrun
    exact h.closeOpen hclose
  | creditEntry now =>
    cases hrun
    exact h.creditEntry now

theorem Exact.endsIn_run (h : t.Exact) (hsane : t.Sane) (events : List TallyEvent) :
    EndsIn (fun t' => t'.Exact ∧ t'.Sane) (t.Overruns events) (t.run events) := by
  induction events generalizing t with
  | nil => exact .ok ⟨h, hsane⟩
  | cons event events ih =>
    rw [run, List.foldlM_cons]
    refine (((h.endsIn_apply event).and_ok fun t₁ ht₁ => ht₁).imp (fun _ h₁ => h₁) fun f hf => .inl hf).bind ?_
    rintro t₁ ⟨h₁, happly⟩
    exact (ih h₁ (hsane.apply happly)).imp (fun _ h' => h') fun f hf => .inr ⟨t₁, happly, hf⟩

/-- **What runs is known exactly.**  After any operations on the tally of a call, for any statements and at any times:
the stack holds at most 64 statements, which are different from each other and run, and the number of untracked
statements is that of the statements that run and are not on the stack, which is zero unless the stack is full; no
statement has more errors than executions, or a longest time that is longer than all its times; the end of a statement
that does not run changes nothing; and closing what runs leaves nothing running, an empty stack and nothing untracked,
and gives the number of statements that ran.  Nothing keeps an operation from its answer but a sum that is too large. -/
theorem running_known_exactly (m : Numbering) (start : Counter) (events : List TallyEvent) :
    EndsIn
      (fun t => t.Exact ∧
        (∀ timer ∈ t.timers, timer.errorCount ≤ timer.execCount ∧ timer.maxElapsed ≤ timer.elapsed) ∧
        (∀ (id : Nat) (now rows : Counter) (isError : Bool), t.isOpen id = false →
          t.finish id now rows isError = .ok t) ∧
        ∀ now, EndsIn
          (fun out => out.1.running = ∅ ∧ out.1.stack = [] ∧ out.1.untracked = 0 ∧ out.2 = t.running.card)
          (t.Overflows now (.asErrors fun _ => True)) (t.closeOpen now))
      ((new m start).Overruns events) ((new m start).run events) := by
  refine ((exact_new m start).endsIn_run (sane_new m start) events).imp ?_ fun f hf => hf
  rintro t ⟨h, hsane⟩
  refine ⟨h, fun timer htimer => ?_, fun id now rows isError hidle => h.finish_of_idle hidle now rows isError,
    h.endsIn_closeOpen⟩
  obtain ⟨i, hi⟩ := Array.mem_iff_getElem?.1 htimer
  exact ⟨(hsane i timer hi).error_le, (hsane i timer hi).max_le⟩

-- 66 statements begin, one inside another, and the last one, beyond the stack, begins again; then the 64th ends
example :
    let begins := (List.range 66).map (fun i => .report (.begin i 0)) ++ [.report (.begin 65 4)]
    let first := new ⟨⟨1, 1, 1, 0⟩, .lines .empty, List.replicate 66 none, List.replicate 66 1, List.replicate 66 none⟩ 0
    (first.run begins).map (fun t => (t.stack.length, t.untracked, t.running.card)) = .ok (64, 2, 66) ∧
      (first.run (begins ++ [.report (.finish 63 9 0 false)])).map
        (fun t => (t.stack.length, t.untracked, t.running.card)) = .ok (63, 0, 63) := by
  decide +kernel

end Tally

end ProcProfile
