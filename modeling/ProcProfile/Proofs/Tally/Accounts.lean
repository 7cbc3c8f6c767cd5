import Mathlib.Tactic
import ProcProfile.Proofs.Tally.Times

/-!
# Accounts without bounds

The counters of a statement as natural numbers, and what every operation of a tally does to them, statement by
statement.  An operation gives a tally with these numbers, or it stops because one of them is as large as no counter is.

* `Account`, `Account.add`: the numbers of one statement, and one execution more;
* `Tally.account`, `Tally.startOf`: the account of a statement, and when its running execution began;
* `Tally.closed`: the account of a statement after its running execution, if there is one, was ended;
* `Tally.Endings`, `Tally.Closes`: which executions an operation ends, and what it leaves of all statements;
* `Tally.Overflows`: which sum is why an operation stops;
* `Tally.beyond`, `Tally.outer`: what runs but is not on the stack, and what goes on when a statement ends;
* `Tally.accounts_finish`, `Tally.accounts_closeOpen`: the operations in these terms.
-/

namespace ProcProfile

/-- What is counted of a statement, in numbers without a bound. -/
structure Account where
  elapsed : Nat
  maxElapsed : Nat
  rows : Nat
  execCount : Nat
  errorCount : Nat
  deriving DecidableEq, Repr

namespace Account

def zero : Account := ⟨0, 0, 0, 0, 0⟩

/-- One execution more. -/
def add (a : Account) (time rows : Nat) (isError : Bool) : Account :=
  ⟨a.elapsed + time, max a.maxElapsed time, a.rows + rows, a.execCount + 1, a.errorCount + isError.toNat⟩

/-- A count or the number of rows is as large as no counter is. -/
def TooMany (a : Account) : Prop := 2 ^ 64 ≤ a.rows ∨ 2 ^ 64 ≤ a.execCount ∨ 2 ^ 64 ≤ a.errorCount

/-- Some sum of the account is as large as no counter is. -/
def TooLarge (a : Account) : Prop := 2 ^ 64 ≤ a.elapsed ∨ a.TooMany

end Account

/-! ### One timer -/

namespace Timer

def account (t : Timer) : Account :=
  ⟨t.elapsed.toNat, t.maxElapsed.toNat, t.rows.toNat, t.execCount.toNat, t.errorCount.toNat⟩

/-- One execution is counted, if all sums fit. -/
theorem account_stop (t : Timer) (startedAt now rows : Counter) (isError : Bool) :
    EndsIn
      (fun t' => t'.account = t.account.add (now.toNat - startedAt.toNat) rows.toNat isError ∧ t'.startedAt = none)
      (fun f => f = .addOverflow ∧ (t.account.add (now.toNat - startedAt.toNat) rows.toNat isError).TooLarge)
      (t.stop startedAt now rows isError) := by
  have htime := Counter.toNat_since now startedAt
  have hone : (1 : Counter).toNat = 1 := rfl
  unfold stop
  refine .bind (Counter.endsIn_add fun hover => ⟨rfl, .inl ?_⟩) fun elapsed helapsed =>
    .bind (Counter.endsIn_add fun hover => ⟨rfl, .inr (.inl hover)⟩) fun rows' hrows =>
    .bind (Counter.endsIn_add fun hover => ⟨rfl, .inr (.inr (.inl hover))⟩) fun exec hexec => ?_
  · rwa [htime] at hover
  · have hsum : ∀ err : Counter, err.toNat = t.errorCount.toNat + isError.toNat →
        Timer.account
          ⟨t.line, t.fingerprint, elapsed, max t.maxElapsed (Counter.since now startedAt), rows', exec, err, none⟩ =
          t.account.add (now.toNat - startedAt.toNat) rows.toNat isError := by
      intro err herr
      simp only [account, Account.add, helapsed, hrows, hexec, herr, htime, Counter.toNat_max, hone]
    cases isError with
    | false => exact .ok ⟨hsum t.errorCount rfl, rfl⟩
    | true =>
      rw [if_pos rfl]
      refine .bind (Counter.endsIn_add fun hover => ⟨rfl, .inr (.inr (.inr hover))⟩) fun err herr => ?_
      exact .ok ⟨hsum err herr, rfl⟩

end Timer

/-- A list around one of its members. -/
theorem eq_takeWhile_append {l : List Nat} {id : Nat} (h : id ∈ l) :
    l = l.takeWhile (· != id) ++ id :: (l.dropWhile (· != id)).tail := by
  induction l with
  | nil => cases h
  | cons a l ih =>
    by_cases ha : a = id
    · simp [ha]
    · have hne : (a != id) = true := by simpa using ha
      simp only [List.takeWhile_cons, List.dropWhile_cons, hne, if_true, List.cons_append]
      rw [← ih (List.mem_of_ne_of_mem (Ne.symm ha) h)]

namespace Tally

/-- The account of a statement. -/
def account (t : Tally) (i : Nat) : Account := t.timers[i]?.elim .zero Timer.account

/-- When the running execution of a statement began. -/
def startOf (t : Tally) (i : Nat) : Option Counter := t.timers[i]?.bind Timer.startedAt

/-- The account of a statement after its running execution, if there is one, was ended. -/
def closed (t : Tally) (now : Counter) (rows : Nat) (isError : Bool) (i : Nat) : Account :=
  (t.startOf i).elim (t.account i) fun start => (t.account i).add (now.toNat - start.toNat) rows isError

variable {t t' : Tally} {now : Counter} {rows : Nat} {isError : Bool} {i id : Nat}

theorem isOpen_eq (t : Tally) (i : Nat) : t.isOpen i = (t.startOf i).isSome := by
  unfold isOpen startOf
  cases t.timers[i]? <;> rfl

theorem startOf_eq_none_iff : t.startOf i = none ↔ t.isOpen i = false := by
  rw [isOpen_eq, Option.isSome_eq_false_iff, Option.isNone_iff_eq_none]

theorem closed_of_idle (h : t.isOpen i = false) (now : Counter) (rows : Nat) (isError : Bool) :
    t.closed now rows isError i = t.account i := by
  rw [closed, startOf_eq_none_iff.2 h, Option.elim_none]

/-- The time of a closed statement is what it has spent up to now. -/
theorem elapsed_closed (t : Tally) (now : Counter) (rows : Nat) (isError : Bool) (i : Nat) :
    (t.closed now rows isError i).elapsed = t.spent now i := by
  unfold closed startOf account spent
  cases t.timers[i]? with
  | none => rfl
  | some timer => cases hs : timer.startedAt <;> simp [hs, Timer.spent, Timer.account, Account.add]

theorem elapsed_account_le (t : Tally) (now : Counter) (i : Nat) : (t.account i).elapsed ≤ t.spent now i := by
  unfold account spent
  cases t.timers[i]? with
  | none => exact le_rfl
  | some timer => exact Nat.le_add_right _ _

theorem account_of_timers (h : t'.timers = t.timers) (i : Nat) : t'.account i = t.account i := by
  rw [account, h, account]

theorem startOf_of_timers (h : t'.timers = t.timers) (i : Nat) : t'.startOf i = t.startOf i := by
  rw [startOf, h, startOf]

theorem Changed.account_eq {timer' : Timer} (h : Changed t id timer' t') (i : Nat) :
    t'.account i = if i = id then timer'.account else t.account i := by
  unfold account
  rw [h.getElem?]
  split_ifs <;> rfl

theorem Changed.startOf_eq {timer' : Timer} (h : Changed t id timer' t') (i : Nat) :
    t'.startOf i = if i = id then timer'.startedAt else t.startOf i := by
  unfold startOf
  rw [h.getElem?]
  split_ifs <;> rfl

/-! ### Endings -/

/-- How statements are ended: not at all, or with a number of rows, and with an error or without one. -/
abbrev Endings := Nat → Option (Nat × Bool)

/-- One statement is ended. -/
def Endings.single (id rows : Nat) (isError : Bool) : Endings := fun i => if i = id then some (rows, isError) else none

/-- Statements are ended as errors. -/
def Endings.asErrors (gone : Nat → Prop) [DecidablePred gone] : Endings :=
  fun i => if gone i then some (0, true) else none

theorem Endings.isSome_asErrors {gone : Nat → Prop} [DecidablePred gone] :
    (Endings.asErrors gone i).isSome = true ↔ gone i := by
  unfold asErrors
  split_ifs with hi <;> simp [hi]

/-- Some statements are ended after others; one that was ended is not ended again. -/
def Endings.append (e e' : Endings) : Endings := fun i => (e i).or (e' i)

/-- The account of a statement after statements were ended. -/
def after (t : Tally) (now : Counter) (e : Endings) (i : Nat) : Account :=
  (e i).elim (t.account i) fun x => t.closed now x.1 x.2 i

/-- A tally in which statements were ended, as far as they ran. -/
structure Closes (t : Tally) (now : Counter) (e : Endings) (t' : Tally) : Prop where
  size : t'.size = t.size
  startOf : ∀ i, t'.startOf i = if (e i).isSome then none else t.startOf i
  account : ∀ i, t'.account i = t.after now e i

/-- A sum in the account of a statement that is ended is as large as no counter is. -/
def Overflows (t : Tally) (now : Counter) (e : Endings) (f : Fault) : Prop :=
  f = .addOverflow ∧ ∃ i, (e i).isSome ∧ (t.after now e i).TooLarge

section Endings

variable {e e' : Endings} {f : Fault}

theorem after_of_idle (h : t.isOpen i = false) (now : Counter) (e : Endings) : t.after now e i = t.account i := by
  unfold after
  cases e i with
  | none => rfl
  | some x => exact closed_of_idle h ..

/-- How idle statements are ended makes no difference. -/
theorem Closes.congr (h : t.Closes now e t') (hsame : ∀ i, t.isOpen i = true → e i = e' i) : t.Closes now e' t' := by
  refine ⟨h.size, fun i => ?_, fun i => ?_⟩
  · rw [h.startOf]
    cases hi : t.isOpen i with
    | true => rw [hsame i hi]
    | false => rw [startOf_eq_none_iff.2 hi, ite_self, ite_self]
  · rw [h.account]
    cases hi : t.isOpen i with
    | true => rw [after, hsame i hi, after]
    | false => rw [after_of_idle hi, after_of_idle hi]

theorem Closes.of_timers {t'' : Tally} (h : t.Closes now e t') (htimers : t''.timers = t'.timers) :
    t.Closes now e t'' := by
  refine ⟨?_, fun i => ?_, fun i => ?_⟩
  · rw [Tally.size, htimers]
    exact h.size
  · rw [startOf_of_timers htimers, h.startOf]
  · rw [account_of_timers htimers, h.account]

theorem Overflows.mono (h : t.Overflows now e f) (hsame : ∀ i, (e i).isSome → e' i = e i) : t.Overflows now e' f := by
  obtain ⟨hf, i, hi, hlarge⟩ := h
  refine ⟨hf, i, by rwa [hsame i hi], ?_⟩
  rwa [after, hsame i hi]

theorem Overflows.append (h : t.Overflows now e f) (e' : Endings) : t.Overflows now (e.append e') f := by
  refine h.mono fun i hi => ?_
  obtain ⟨x, hx⟩ := Option.isSome_iff_exists.1 hi
  rw [Endings.append, hx, Option.some_or]

/-- What was ended before makes no difference to what is ended now, and the other way round. -/
theorem Closes.after_eq (h : t.Closes now e t') (e' : Endings) (i : Nat) :
    t'.after now e' i = t.after now (e.append e') i := by
  have hstart := h.startOf i
  have haccount := h.account i
  unfold after Endings.append at *
  cases hi : e i with
  | none =>
    rw [hi] at hstart haccount
    simp only [Option.isSome_none, Bool.false_eq_true, if_false, Option.elim_none] at hstart haccount
    rw [Option.none_or]
    cases e' i with
    | none => exact haccount
    | some x => simp only [Option.elim_some, closed, hstart, haccount]
  | some x =>
    rw [hi] at hstart haccount
    simp only [Option.isSome_some, if_true] at hstart
    rw [Option.some_or, ← haccount]
    cases e' i with
    | none => rfl
    | some x => simp only [Option.elim_some, closed, hstart, Option.elim_none]

theorem Closes.trans {t'' : Tally} (h : t.Closes now e t') (h' : t'.Closes now e' t'') :
    t.Closes now (e.append e') t'' := by
  refine ⟨h'.size.trans h.size, fun i => ?_, fun i => (h'.account i).trans (h.after_eq e' i)⟩
  rw [h'.startOf, h.startOf, Endings.append]
  cases e i <;> cases e' i <;> rfl

theorem Closes.overflows (h : t.Closes now e t') (hover : t'.Overflows now e' f) :
    t.Overflows now (e.append e') f := by
  obtain ⟨hf, i, hi, hlarge⟩ := hover
  refine ⟨hf, i, ?_, by rwa [← h.after_eq]⟩
  rw [Endings.append]
  cases e i <;> simp [hi]

theorem Closes.isOpen_iff (h : t.Closes now e t') : t'.isOpen i = true ↔ t.isOpen i = true ∧ e i = none := by
  rw [isOpen_eq, isOpen_eq, h.startOf]
  cases e i <;> simp

end Endings

section AsErrors

variable {gone gone' : Nat → Prop} [DecidablePred gone] [DecidablePred gone'] {f : Fault}

theorem Endings.append_asErrors :
    (Endings.asErrors gone).append (.asErrors gone') = .asErrors fun i => gone i ∨ gone' i := by
  funext i
  by_cases hi : gone i <;> simp [append, asErrors, hi]

theorem Closes.asErrors_trans {t'' : Tally} (h : t.Closes now (.asErrors gone) t')
    (h' : t'.Closes now (.asErrors gone') t'') : t.Closes now (.asErrors fun i => gone i ∨ gone' i) t'' := by
  rw [← Endings.append_asErrors]
  exact h.trans h'

theorem Closes.asErrors_overflows (h : t.Closes now (.asErrors gone) t')
    (hover : t'.Overflows now (.asErrors gone') f) : t.Overflows now (.asErrors fun i => gone i ∨ gone' i) f := by
  rw [← Endings.append_asErrors]
  exact h.overflows hover

theorem Closes.asErrors_congr (h : t.Closes now (.asErrors gone) t')
    (hsame : ∀ i, t.isOpen i = true → (gone i ↔ gone' i)) : t.Closes now (.asErrors gone') t' :=
  h.congr fun i hi => by simp only [Endings.asErrors, hsame i hi]

theorem Overflows.asErrors_mono (h : t.Overflows now (.asErrors gone) f) (hmore : ∀ i, gone i → gone' i) :
    t.Overflows now (.asErrors gone') f := by
  refine h.mono fun i hi => ?_
  rw [Endings.isSome_asErrors] at hi
  rw [Endings.asErrors, Endings.asErrors, if_pos hi, if_pos (hmore i hi)]

end AsErrors

/-! ### Operations -/

theorem accounts_close (t : Tally) (id : Nat) (now rows : Counter) (isError : Bool) :
    EndsIn
      (fun a => t.Closes now (.single id rows.toNat isError) a.1 ∧ a.1.stack = t.stack ∧
        a.1.untracked = t.untracked ∧ a.2 = t.isOpen id)
      (t.Overflows now (.single id rows.toNat isError)) (t.close id now rows isError) := by
  have hidle : t.isOpen id = false → t.Closes now (.single id rows.toNat isError) t := by
    intro hidle
    have hnone : t.Closes now (fun _ => none) t := ⟨rfl, fun _ => rfl, fun _ => rfl⟩
    refine hnone.congr fun i hi => (if_neg ?_).symm
    rintro rfl
    rw [hidle] at hi
    cases hi
  unfold close
  split
  · rename_i hnone
    have hopen : t.isOpen id = false := by simp [isOpen, hnone]
    exact .ok ⟨hidle hopen, rfl, rfl, hopen.symm⟩
  · rename_i timer htimer
    split
    · rename_i hstart
      have hopen : t.isOpen id = false := by simp [isOpen, htimer, Timer.isOpen, hstart]
      exact .ok ⟨hidle hopen, rfl, rfl, hopen.symm⟩
    · rename_i startedAt hstart
      have hclosed : t.after now (.single id rows.toNat isError) id =
          timer.account.add (now.toNat - startedAt.toNat) rows.toNat isError := by
        simp [after, Endings.single, closed, startOf, account, htimer, hstart]
      have hstop := (timer.account_stop startedAt now rows isError).imp (fun _ h => h) fun f hf =>
        show t.Overflows now (.single id rows.toNat isError) f from
          ⟨hf.1, id, by simp [Endings.single], hclosed ▸ hf.2⟩
      refine hstop.bind fun timer' htimer' =>
        .ok ⟨⟨Array.size_setIfInBounds .., fun i => ?_, fun i => ?_⟩, rfl, rfl, ?_⟩
      · rw [(changed_set htimer timer').startOf_eq, htimer'.2, Endings.single]
        split_ifs <;> simp_all
      · rw [(changed_set htimer timer').account_eq, htimer'.1, ← hclosed]
        split_ifs with hi
        · rw [hi]
        · rw [after, Endings.single, if_neg hi, Option.elim_none]
      · simp [isOpen, htimer, Timer.isOpen, hstart]

theorem accounts_closeAll (t : Tally) (now : Counter) (ids : List Nat) :
    EndsIn
      (fun a => t.Closes now (.asErrors (· ∈ ids)) a.1 ∧ a.1.stack = t.stack ∧ a.1.untracked = t.untracked ∧
        (ids.Nodup → a.2 = ids.countP t.isOpen))
      (t.Overflows now (.asErrors (· ∈ ids))) (t.closeAll now ids) := by
  induction ids generalizing t with
  | nil => exact .ok ⟨⟨rfl, fun _ => rfl, fun _ => rfl⟩, rfl, rfl, fun _ => rfl⟩
  | cons id ids ih =>
    have hsplit : Endings.asErrors (· ∈ id :: ids) = .append (.single id 0 true) (.asErrors (· ∈ ids)) := by
      funext i
      by_cases hi : i = id <;> simp [Endings.asErrors, Endings.append, Endings.single, hi]
    rw [closeAll, hsplit]
    refine ((t.accounts_close id now 0 true).imp (fun _ h => h) fun f hf => hf.append _).bind fun a ha => ?_
    obtain ⟨hclosed, hstack, huntracked, hran⟩ := ha
    refine ((ih a.1).imp (fun _ h => h) fun f hf => hclosed.overflows hf).bind fun b hb => .ok ?_
    obtain ⟨hclosed', hstack', huntracked', hcount⟩ := hb
    refine ⟨hclosed.trans hclosed', hstack'.trans hstack, huntracked'.trans huntracked, fun hnodup => ?_⟩
    rw [List.nodup_cons] at hnodup
    -- the statements that come later are as they were before the first one was closed
    have hsame : ids.countP a.1.isOpen = ids.countP t.isOpen := by
      refine List.countP_congr fun i hi => ?_
      have hne : i ≠ id := fun he => hnodup.1 (he ▸ hi)
      rw [hclosed.isOpen_iff, Endings.single, if_neg hne]
      simp
    rw [List.countP_cons, ← hsame, ← hcount hnodup.2, hran]
    split_ifs <;> rfl

/-- The statements that run and are not on the stack. -/
def beyond (t : Tally) : Finset Nat := (Finset.range t.size).filter fun i => t.isOpen i = true ∧ i ∉ t.stack

theorem mem_beyond : i ∈ t.beyond ↔ t.isOpen i = true ∧ i ∉ t.stack := by
  rw [beyond, Finset.mem_filter, Finset.mem_range]
  exact and_iff_right_of_imp fun hi => lt_size_of_isOpen hi.1

/-- What is neither on the stack nor to be kept is closed. -/
theorem accounts_closeUntracked (t : Tally) (keep : Option Nat) (now : Counter) :
    EndsIn
      (fun a => t.Closes now (.asErrors fun i => some i ≠ keep ∧ i ∉ t.stack) a.1 ∧ a.1.stack = t.stack ∧
        a.1.untracked = 0 ∧ a.2 = (t.beyond.filter fun i => some i ≠ keep).card)
      (t.Overflows now (.asErrors fun i => some i ≠ keep ∧ i ∉ t.stack)) (t.closeUntracked keep now) := by
  have hmem : ∀ i, i ∈ ((List.range t.size).filter fun id => some id != keep && !t.stack.contains id) ↔
      i < t.size ∧ some i ≠ keep ∧ i ∉ t.stack := by simp
  unfold closeUntracked
  refine ((t.accounts_closeAll now _).imp (fun _ h => h) fun f hf => ?_).bind fun a ha => ?_
  · exact hf.asErrors_mono fun i hi => ((hmem i).1 hi).2
  · have hclosed : t.Closes now (.asErrors fun i => some i ≠ keep ∧ i ∉ t.stack) a.1 :=
      ha.1.asErrors_congr fun i hi => by rw [hmem, and_iff_right (lt_size_of_isOpen hi)]
    have hnodup : ((List.range t.size).filter fun id => some id != keep && !t.stack.contains id).Nodup :=
      List.nodup_range.filter _
    refine .ok ⟨hclosed.of_timers rfl, ha.2.1, rfl, ?_⟩
    rw [ha.2.2.2 hnodup, List.countP_eq_length_filter, ← List.toFinset_card_of_nodup (hnodup.filter _)]
    congr 1
    ext i
    rw [List.mem_toFinset, List.mem_filter, hmem, Finset.mem_filter, mem_beyond]
    have hlt : t.isOpen i = true → i < t.size := lt_size_of_isOpen
    tauto

/-- The statements around one that ends, which go on. -/
def outer (t : Tally) (id : Nat) : List Nat :=
  if id ∈ t.stack then (t.stack.dropWhile (· != id)).tail else t.stack

theorem outer_of_not_mem (hmem : id ∉ t.stack) : t.outer id = t.stack := if_neg hmem

theorem cons_outer_suffix (hmem : id ∈ t.stack) : id :: t.outer id <:+ t.stack := by
  conv_rhs => rw [eq_takeWhile_append hmem]
  rw [outer, if_pos hmem]
  exact List.suffix_append ..

theorem outer_suffix (t : Tally) (id : Nat) : t.outer id <:+ t.stack := by
  by_cases hmem : id ∈ t.stack
  · exact (List.suffix_cons ..).trans (cons_outer_suffix hmem)
  · rw [outer_of_not_mem hmem]

/-- How statements are ended with one of them: if that one is on the stack, all others end as errors but those around
it; if not, no other does. -/
def endings (t : Tally) (id rows : Nat) (isError : Bool) : Endings := fun i =>
  if i = id then some (rows, isError) else if id ∈ t.stack ∧ i ∉ t.outer id then some (0, true) else none

/-- What began inside a statement on the stack is none of the statements around it. -/
theorem ne_and_not_mem_outer (hnodup : t.stack.Nodup) (hmem : id ∈ t.stack) (hi : i ∈ t.stack.takeWhile (· != id)) :
    i ≠ id ∧ i ∉ t.outer id := by
  refine ⟨by simpa using List.mem_takeWhile_imp hi, fun hout => ?_⟩
  rw [outer, if_pos hmem] at hout
  rw [← List.takeWhile_append_dropWhile (p := (· != id)) (l := t.stack), List.nodup_append] at hnodup
  exact hnodup.2.2 i hi i (List.mem_of_mem_tail hout) rfl

theorem endings_of_mem (hmem : id ∈ t.stack) (rows : Nat) (isError : Bool) :
    t.endings id rows isError =
      (Endings.asErrors fun i => i ≠ id ∧ i ∉ t.outer id).append (.single id rows isError) := by
  funext i
  by_cases hi : i = id
  · simp [Endings.append, Endings.asErrors, Endings.single, endings, hi]
  · by_cases hout : i ∈ t.outer id <;>
      simp [Endings.append, Endings.asErrors, Endings.single, endings, hi, hout, hmem]

theorem endings_of_not_mem (hmem : id ∉ t.stack) (rows : Nat) (isError : Bool) :
    t.endings id rows isError = .single id rows isError := by
  funext i
  simp [endings, Endings.single, hmem]

/-- Before a statement on the stack ends, all others are closed but those around it. -/
theorem accounts_unwind (htracked : t.Tracked) (hnodup : t.stack.Nodup) (hmem : id ∈ t.stack) (now : Counter) :
    EndsIn
      (fun t' => t.Closes now (.asErrors fun i => i ≠ id ∧ i ∉ t.outer id) t' ∧ t'.stack = t.outer id ∧
        t'.untracked = 0)
      (t.Overflows now (.asErrors fun i => i ≠ id ∧ i ∉ t.outer id))
      ({ t with stack := t.outer id }.closeAll now (t.stack.takeWhile (· != id)) >>= fun a =>
        if 0 < a.1.untracked then (·.1) <$> a.1.closeUntracked (some id) now else pure a.1) := by
  have hinner : ∀ i ∈ t.stack.takeWhile (· != id), i ≠ id ∧ i ∉ t.outer id :=
    fun i hi => ne_and_not_mem_outer hnodup hmem hi
  refine ((accounts_closeAll _ now _).imp (fun _ h => h) fun f hf => ?_).bind fun a ha => ?_
  · exact Overflows.asErrors_mono (t := t) hf hinner
  obtain ⟨hclosed, hstack, huntracked, -⟩ := ha
  replace hclosed : t.Closes now (.asErrors (· ∈ t.stack.takeWhile (· != id))) a.1 :=
    ⟨hclosed.size, hclosed.startOf, hclosed.account⟩
  split_ifs with hpos
  · have hsame : ∀ i, i ∈ t.stack.takeWhile (· != id) ∨ some i ≠ some id ∧ i ∉ a.1.stack ↔
        i ≠ id ∧ i ∉ t.outer id := fun i => by
      rw [hstack, Ne, Option.some_inj]
      exact or_iff_right_of_imp (hinner i)
    refine ((a.1.accounts_closeUntracked (some id) now).imp (fun _ h => h) fun f hf => ?_).map fun b hb => ?_
    · exact (hclosed.asErrors_overflows hf).asErrors_mono fun i hi => (hsame i).1 hi
    · exact ⟨(hclosed.asErrors_trans hb.1).asErrors_congr fun i _ => hsame i,
        hb.2.1.trans hstack, hb.2.2.1⟩
  · refine .ok ⟨hclosed.asErrors_congr fun i hi => ⟨hinner i, ?_⟩, hstack, Nat.eq_zero_of_not_pos hpos⟩
    -- nothing is untracked, so that everything that runs is on the stack
    rintro ⟨hne, hout⟩
    have hstacked := htracked.mem_stack (Nat.eq_zero_of_not_pos (huntracked ▸ hpos)) hi
    rw [outer, if_pos hmem] at hout
    exact (mem_stack_cases hmem hstacked).resolve_right fun h => h.elim hne hout

/-- Ending a statement.  Above the stack nothing runs any more if the statement was on it, and one statement less
otherwise, if the statement ran. -/
theorem accounts_finish (htracked : t.Tracked) (hnodup : t.stack.Nodup) (id : Nat) (now rows : Counter)
    (isError : Bool) :
    EndsIn
      (fun t' => t.Closes now (t.endings id rows.toNat isError) t' ∧ t'.stack = t.outer id ∧
        t'.untracked = if id ∈ t.stack then 0 else t.untracked - (t.isOpen id).toNat)
      (t.Overflows now (t.endings id rows.toNat isError)) (t.finish id now rows isError) := by
  by_cases hmem : id ∈ t.stack
  · have hfinish : t.finish id now rows isError =
        ({ t with stack := t.outer id }.closeAll now (t.stack.takeWhile (· != id)) >>= fun a =>
          if 0 < a.1.untracked then (·.1) <$> a.1.closeUntracked (some id) now else pure a.1) >>= fun t₁ =>
            t₁.close id now rows isError >>= fun a => pure a.1 := by
      rw [finish, if_pos (by simpa using hmem), outer, if_pos hmem, bind_assoc]
      refine bind_congr fun a => ?_
      dsimp only
      split_ifs <;> rfl
    rw [hfinish, endings_of_mem hmem, if_pos hmem]
    refine ((accounts_unwind htracked hnodup hmem now).imp (fun _ h => h) fun f hf => hf.append _).bind ?_
    rintro t₁ ⟨hclosed, hstack, huntracked⟩
    exact ((t₁.accounts_close id now rows isError).imp (fun _ h => h) fun f hf => hclosed.overflows hf).bind
      fun a ha => .ok ⟨hclosed.trans ha.1, ha.2.1.trans hstack, ha.2.2.1.trans huntracked⟩
  · -- the number of untracked statements has nothing to do with accounts
    have hclose : ∀ n, EndsIn
        (fun t' => t.Closes now (.single id rows.toNat isError) t' ∧ t'.stack = t.stack ∧ t'.untracked = n)
        (t.Overflows now (.single id rows.toNat isError))
        ({ t with untracked := n }.close id now rows isError >>= fun a => pure a.1) := fun n =>
      (accounts_close { t with untracked := n } id now rows isError).bind fun a ha =>
        .ok ⟨⟨ha.1.size, ha.1.startOf, ha.1.account⟩, ha.2.1, ha.2.2.1⟩
    unfold finish
    dsimp only
    rw [if_neg hmem, if_neg (by simpa using hmem), endings_of_not_mem hmem, outer_of_not_mem hmem]
    cases hrun : t.isOpen id with
    | true => exact hclose (t.untracked - 1)
    | false => exact hclose t.untracked

/-- Closing everything that runs, on the stack and beyond it. -/
theorem accounts_closeOpen (htracked : t.Tracked) (now : Counter) :
    EndsIn
      (fun a => t.Closes now (.asErrors fun _ => True) a.1 ∧ a.1.stack = [] ∧ a.1.untracked = 0 ∧
        (t.stack.Nodup → a.2 = t.stack.countP t.isOpen + t.beyond.card))
      (t.Overflows now (.asErrors fun _ => True)) (t.closeOpen now) := by
  unfold closeOpen
  refine ((accounts_closeAll { t with stack := [] } now t.stack).imp (fun _ h => h) fun f hf => ?_).bind fun a ha => ?_
  · exact Overflows.asErrors_mono (t := t) hf fun _ _ => trivial
  obtain ⟨hclosed, hstack, huntracked, hcount⟩ := ha
  replace hclosed : t.Closes now (.asErrors (· ∈ t.stack)) a.1 := ⟨hclosed.size, hclosed.startOf, hclosed.account⟩
  dsimp only
  split_ifs with hpos
  · refine ((a.1.accounts_closeUntracked none now).imp (fun _ h => h) fun f hf => ?_).bind fun b hb =>
      .ok ⟨?_, hb.2.1.trans hstack, hb.2.2.1, fun hnodup => ?_⟩
    · exact (hclosed.asErrors_overflows hf).asErrors_mono fun _ _ => trivial
    · refine (hclosed.asErrors_trans hb.1).asErrors_congr fun i _ => iff_of_true ?_ trivial
      rw [hstack]
      simp
    · -- what is left to close is what was not on the stack
      have hleft : (a.1.beyond.filter fun i => some i ≠ none) = t.beyond := by
        ext i
        rw [Finset.mem_filter, mem_beyond, mem_beyond, hstack, hclosed.isOpen_iff, Endings.asErrors]
        simp
      rw [hcount hnodup, hb.2.2.2, hleft]
      rfl
  · -- nothing is untracked, so that everything that runs is on the stack
    have hzero : t.untracked = 0 := Nat.eq_zero_of_not_pos (huntracked ▸ hpos)
    have hnone : t.beyond.card = 0 := Nat.le_zero.1 (hzero ▸ htracked)
    refine .ok ⟨hclosed.asErrors_congr fun i hi => iff_of_true (htracked.mem_stack hzero hi) trivial, hstack,
      huntracked.trans hzero, fun hnodup => ?_⟩
    rw [hcount hnodup, hnone]
    rfl

/-! ### Starting -/

theorem isOpen_new (m : Numbering) (now : Counter) (i : Nat) : (new m now).isOpen i = false := by
  have hbegun := (new_eq m now).2.2.1 i
  rw [begun, Nat.add_eq_zero_iff, Bool.toNat_eq_zero] at hbegun
  exact hbegun.2

section Start

variable (hid : id < t.size)
include hid

theorem startOf_start (now : Counter) (i : Nat) :
    (t.start id now).startOf i = if i = id then some now else t.startOf i :=
  (changed_start (Array.getElem?_eq_getElem hid) now).startOf_eq i

theorem isOpen_start (now : Counter) (i : Nat) :
    (t.start id now).isOpen i = true ↔ i = id ∨ t.isOpen i = true := by
  rw [isOpen_eq, isOpen_eq, startOf_start hid]
  split_ifs with hi <;> simp [hi]

theorem account_start (now : Counter) (i : Nat) : (t.start id now).account i = t.account i := by
  rw [(changed_start (Array.getElem?_eq_getElem hid) now).account_eq]
  split_ifs with hi
  · rw [hi, account, Array.getElem?_eq_getElem hid]
    rfl
  · rfl

end Start

theorem stack_start (t : Tally) (id : Nat) (now : Counter) :
    (t.start id now).stack = if t.stack.length < maxOpen then id :: t.stack else t.stack := by
  unfold start
  dsimp only
  split_ifs <;> rfl

theorem untracked_start (t : Tally) (id : Nat) (now : Counter) :
    (t.start id now).untracked = if t.stack.length < maxOpen then t.untracked else t.untracked + 1 := by
  unfold start
  dsimp only
  split_ifs <;> rfl

theorem size_start (t : Tally) (id : Nat) (now : Counter) : (t.start id now).size = t.size := by
  rw [size, timers_start]
  exact Array.size_modify ..

end Tally

end ProcProfile
