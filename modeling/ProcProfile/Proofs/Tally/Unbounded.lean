import Mathlib.Tactic
import ProcProfile.Proofs.Call.Times
import ProcProfile.Proofs.Tally.Accounts

/-!
# Counting as with an unbounded stack

The stack of a tally has room for 64 running statements; of those that begin above, only their number is kept.  So a
tally does not see that a deep statement was skipped by an error when another deep one ends.  It closes that statement
later: when it begins again, when a statement on the stack ends, or when the call ends.  Such a closing is *pending*.
In the end, every statement was executed as often, with as many errors and rows, as with a stack that has no bound.
Only the times differ, and so may what does not fit into a counter.

* `Nest`, `Nest.take`, `Nest.closeOpen`: running statements without a bound on their number;
* `Account.Behind`: an account in which closings are pending;
* `Tally.Follows`: a tally and a nest after the same reports, and what each report keeps of it;
* `Tally.Overlong`: at some report, a statement has spent more time than a counter can hold;
* `Tally.counts_as_unbounded`: what becomes of a call, compared with the nest.
-/

namespace ProcProfile

/-! ### Running statements without a bound -/

/-- The statements that run and what was counted, with no bound on any number. -/
structure Nest where
  /-- The statement that began last is in front. -/
  running : List Nat
  /-- When the running execution of a statement began. -/
  began : Nat → Counter
  account : Nat → Account
  /-- The most statements that ever ran at one time. -/
  deepest : Nat

namespace Nest

/-- Nothing has begun. -/
def empty : Nest := ⟨[], fun _ => 0, fun _ => .zero, 0⟩

/-- The account of a statement after its running execution, if there is one, was ended. -/
def closed (r : Nest) (now : Counter) (rows : Nat) (isError : Bool) (i : Nat) : Account :=
  if i ∈ r.running then (r.account i).add (now.toNat - (r.began i).toNat) rows isError else r.account i

/-- The statements that began after one that runs. -/
def inner (r : Nest) (id : Nat) : List Nat := r.running.takeWhile (· != id)

/-- The statements that began before one that runs. -/
def outer (r : Nest) (id : Nat) : List Nat := (r.running.dropWhile (· != id)).tail

/-- Ends a statement that runs.  Those that began after it are closed as errors. -/
def finish (r : Nest) (id : Nat) (now : Counter) (rows : Nat) (isError : Bool) : Nest :=
  { r with
    running := r.outer id
    account := fun i =>
      if i = id then r.closed now rows isError i
      else if i ∈ r.inner id then r.closed now 0 true i
      else r.account i }

/-- A statement that does not run begins. -/
def push (r : Nest) (id : Nat) (now : Counter) : Nest :=
  { r with
    running := id :: r.running
    began := Function.update r.began id now
    deepest := max r.deepest (r.running.length + 1) }

/-- Begins one of `size` statements.  If it runs, that execution ends as an error first. -/
def begin (r : Nest) (size id : Nat) (now : Counter) : Nest :=
  if id < size then (if id ∈ r.running then r.finish id now 0 true else r).push id now else r

/-- One report.  Only statements that run may end. -/
def take (size : Nat) (r : Nest) : TimedHook Nat → Option Nest
  | .begin id now => some (r.begin size id now)
  | .finish id now rows isError =>
    if id ∈ r.running then some (r.finish id now rows.toNat isError) else none

/-- Closes everything that runs, as errors; also says how many statements that were. -/
def closeOpen (r : Nest) (now : Counter) : Nest × Nat :=
  ({ r with running := [], account := r.closed now 0 true }, r.running.length)

/-- A count or the rows of some statement are as many as no counter can hold. -/
def TooMany (r : Nest) : Prop := ∃ i, (r.account i).TooMany

end Nest

namespace Nest

variable {r : Nest} {id i : Nat} {now : Counter} {rows : Nat} {isError : Bool}

theorem running_eq (hid : id ∈ r.running) : r.running = r.inner id ++ id :: r.outer id := eq_takeWhile_append hid

theorem mem_running_iff (hid : id ∈ r.running) : i ∈ r.running ↔ i ∈ r.inner id ∨ i = id ∨ i ∈ r.outer id := by
  conv_lhs => rw [running_eq hid]
  rw [List.mem_append, List.mem_cons]

/-- What began before a statement is neither that statement nor one that began after it. -/
theorem apart_of_mem_outer (hnodup : r.running.Nodup) (hid : id ∈ r.running) (hi : i ∈ r.outer id) :
    i ≠ id ∧ i ∉ r.inner id := by
  rw [running_eq hid, List.nodup_append, List.nodup_cons] at hnodup
  obtain ⟨-, ⟨hself, -⟩, hapart⟩ := hnodup
  exact ⟨fun he => hself (he ▸ hi), fun hin => hapart i hin i (List.mem_cons_of_mem _ hi) rfl⟩

theorem account_finish_self : (r.finish id now rows isError).account id = r.closed now rows isError id := if_pos rfl

theorem account_finish_of_mem (hne : i ≠ id) (hi : i ∈ r.inner id) :
    (r.finish id now rows isError).account i = r.closed now 0 true i := (if_neg hne).trans (if_pos hi)

theorem account_finish_of_not_mem (hne : i ≠ id) (hi : i ∉ r.inner id) :
    (r.finish id now rows isError).account i = r.account i := (if_neg hne).trans (if_neg hi)

end Nest

namespace Account

/-- An account in which the closings of `n` executions, as errors, are pending, beside one in which they are not.  If
`precise` holds, the two are the same. -/
structure Behind (a : Account) (precise : Prop) (n : Nat) (b : Account) : Prop where
  rows : b.rows = a.rows
  execCount : b.execCount = a.execCount + n
  errorCount : b.errorCount = a.errorCount + n
  eq : precise → a = b

variable {a b : Account} {precise : Prop} {n : Nat}

theorem Behind.add (h : a.Behind precise n b) (time rows : Nat) (isError : Bool) :
    (a.add time rows isError).Behind precise n (b.add time rows isError) where
  rows := congrArg (· + rows) h.rows
  execCount := by simp only [Account.add, h.execCount, Nat.add_right_comm]
  errorCount := by simp only [Account.add, h.errorCount, Nat.add_right_comm]
  eq hprecise := by rw [h.eq hprecise]

theorem Behind.imp {precise' : Prop} (h : a.Behind precise n b) (himp : precise' → precise) : a.Behind precise' n b :=
  ⟨h.rows, h.execCount, h.errorCount, fun hprecise => h.eq (himp hprecise)⟩

/-- A closing becomes pending. -/
theorem Behind.postpone (h : a.Behind precise 0 b) (hnot : ¬ precise) (time : Nat) :
    a.Behind precise 1 (b.add time 0 true) :=
  ⟨h.rows, congrArg (· + 1) h.execCount, congrArg (· + 1) h.errorCount, fun hprecise => absurd hprecise hnot⟩

/-- A pending closing is made up for. -/
theorem Behind.catchUp (h : a.Behind precise 1 b) (time : Nat) : (a.add time 0 true).Behind precise 0 b := by
  refine ⟨h.rows, h.execCount, h.errorCount, fun hprecise => ?_⟩
  have hexec := h.execCount
  rw [h.eq hprecise] at hexec
  omega

theorem Behind.tooMany (h : a.Behind precise n b) (ha : a.TooMany) : b.TooMany := by
  unfold TooMany at ha ⊢
  rw [h.rows, h.execCount, h.errorCount]
  omega

end Account

namespace Tally

/-! ### A tally and a nest -/

/-- A tally and a nest after the same reports.  What runs in the nest runs in the tally, and the statements on the stack
are those that began first.  A statement that runs in the tally alone is to be closed as an error. -/
structure Follows (size : Nat) (t : Tally) (r : Nest) : Prop where
  size : t.size = size
  tracked : t.Tracked
  stack : t.stack <:+ r.running
  nodup : r.running.Nodup
  room : t.stack.length ≤ maxOpen
  /-- Only above a full stack does anything run that is not on it. -/
  full : ∀ i, t.isOpen i = true → i ∉ t.stack → t.stack.length = maxOpen
  began : ∀ i ∈ r.running, t.startOf i = some (r.began i)
  depth : r.running.length ≤ r.deepest
  untracked : r.deepest ≤ maxOpen → t.untracked = 0
  account : ∀ i, (t.account i).Behind (r.deepest ≤ maxOpen) (if i ∉ r.running ∧ t.isOpen i = true then 1 else 0)
    (r.account i)

/-- Why an operation stops: some time is too long, or a number of the nest is too large. -/
def StopsLate (t : Tally) (now : Counter) (r : Nest) (f : Fault) : Prop :=
  f = .addOverflow ∧ ((∃ i, 2 ^ 64 ≤ t.spent now i) ∨ r.TooMany)

theorem elapsed_after_le (t : Tally) (now : Counter) (e : Endings) (i : Nat) :
    (t.after now e i).elapsed ≤ t.spent now i := by
  unfold after
  cases e i with
  | none => exact t.elapsed_account_le now i
  | some x => exact (t.elapsed_closed now x.1 x.2 i).le

/-- If the accounts to come are behind those of a nest, only times can be too large where those are not. -/
theorem Overflows.stopsLate {t : Tally} {now : Counter} {e : Endings} {r : Nest} {precise : Prop} {n : Nat → Nat}
    {f : Fault} (h : t.Overflows now e f) (hbehind : ∀ i, (t.after now e i).Behind precise (n i) (r.account i)) :
    t.StopsLate now r f := by
  obtain ⟨hf, i, -, hlarge⟩ := h
  refine ⟨hf, hlarge.imp (fun hlong => ⟨i, hlong.trans (t.elapsed_after_le now e i)⟩) fun hmany => ?_⟩
  exact ⟨i, (hbehind i).tooMany hmany⟩

namespace Follows

variable {size : Nat} {t t' : Tally} {r : Nest} {now : Counter} {rows : Nat} {isError : Bool} {i id : Nat}
  (h : Follows size t r)
include h

theorem isOpen_of_running (hi : i ∈ r.running) : t.isOpen i = true := by
  rw [isOpen_eq, h.began i hi, Option.isSome_some]

theorem mem_running_of_stack (hi : i ∈ t.stack) : i ∈ r.running := h.stack.subset hi

/-- A statement that runs in both is closed alike. -/
theorem behind_closed (hi : i ∈ r.running) :
    (t.closed now rows isError i).Behind (r.deepest ≤ maxOpen) 0 (r.closed now rows isError i) := by
  have hbehind := h.account i
  rw [if_neg (by simp [hi])] at hbehind
  rw [closed, h.began i hi, Option.elim_some, Nest.closed, if_pos hi]
  exact hbehind.add ..

/-- What is closed in the tally alone was pending or idle. -/
theorem behind_of_not_running (hi : i ∉ r.running) :
    (t.closed now 0 true i).Behind (r.deepest ≤ maxOpen) 0 (r.account i) := by
  have hbehind := h.account i
  cases hopen : t.isOpen i with
  | false =>
    rw [if_neg (by simp [hopen])] at hbehind
    rwa [closed_of_idle hopen]
  | true =>
    rw [if_pos ⟨hi, hopen⟩] at hbehind
    obtain ⟨start, hstart⟩ := Option.isSome_iff_exists.1 ((t.isOpen_eq i).symm.trans hopen)
    rw [closed, hstart, Option.elim_some]
    exact hbehind.catchUp _

/-- If a statement on the stack ends, what is left of the stack is what runs in the nest. -/
theorem outer_eq (hmem : id ∈ t.stack) : r.outer id = t.outer id := by
  obtain ⟨deep, hdeep⟩ := h.stack
  have hnodup := h.nodup
  rw [← hdeep, List.nodup_append] at hnodup
  have hnot : ∀ a ∈ deep, (a != id) = true := fun a ha => by simpa using hnodup.2.2 a ha id hmem
  rw [Nest.outer, Tally.outer, if_pos hmem, ← hdeep, List.dropWhile_append_of_pos hnot]

/-- If another statement ends, the stack is left as it is. -/
theorem suffix_outer (hid : id ∈ r.running) (hmem : id ∉ t.stack) : t.stack <:+ r.outer id := by
  have hstack := h.stack
  rw [Nest.running_eq hid] at hstack
  rcases List.suffix_or_suffix_of_suffix hstack (List.suffix_append _ _) with hsuffix | hsuffix
  · rcases List.suffix_cons_iff.1 hsuffix with heq | hrest
    · exact absurd (heq ▸ List.mem_cons_self) hmem
    · exact hrest
  · exact absurd (hsuffix.subset List.mem_cons_self) hmem

/-- A statement that runs but is not on the stack began above a full one. -/
theorem lt_deepest (hid : id ∈ r.running) (hmem : id ∉ t.stack) : maxOpen < r.deepest := by
  have hfull := h.full id (h.isOpen_of_running hid) hmem
  have hshorter : t.stack.length < r.running.length := by
    refine h.stack.length_le.lt_of_ne fun hlength => hmem ?_
    rwa [h.stack.eq_of_length hlength]
  exact hfull ▸ hshorter.trans_le h.depth

/-- The accounts that ending a statement leaves are behind those of the nest by what is still to be closed. -/
theorem behind_finish (hid : id ∈ r.running) (now : Counter) (rows : Nat) (isError : Bool) (i : Nat) :
    (t.after now (t.endings id rows isError) i).Behind (r.deepest ≤ maxOpen)
      (if i ∉ r.outer id ∧ t.isOpen i = true ∧ t.endings id rows isError i = none then 1 else 0)
      ((r.finish id now rows isError).account i) := by
  by_cases hself : i = id
  · subst hself
    have hending : t.endings i rows isError i = some (rows, isError) := if_pos rfl
    rw [Nest.account_finish_self, after, hending, if_neg (by simp)]
    exact h.behind_closed hid
  by_cases hgone : id ∈ t.stack ∧ i ∉ t.outer id
  · have hending : t.endings id rows isError i = some (0, true) := (if_neg hself).trans (if_pos hgone)
    rw [after, hending, if_neg (by simp)]
    by_cases hrun : i ∈ r.running
    · have hinner : i ∈ r.inner id := by
        rcases (Nest.mem_running_iff hid).1 hrun with hin | he | hout
        · exact hin
        · exact absurd he hself
        · exact absurd (h.outer_eq hgone.1 ▸ hout) hgone.2
      rw [Nest.account_finish_of_mem hself hinner]
      exact h.behind_closed hrun
    · rw [Nest.account_finish_of_not_mem hself fun hin => hrun (List.takeWhile_subset _ hin)]
      exact h.behind_of_not_running hrun
  · have hending : t.endings id rows isError i = none := (if_neg hself).trans (if_neg hgone)
    have hbehind := h.account i
    rw [after, hending, Option.elim_none]
    by_cases hinner : i ∈ r.inner id
    · -- it is closed in the nest alone, which is so above a full stack only
      have hrun : i ∈ r.running := List.takeWhile_subset _ hinner
      have hleft : i ∉ r.outer id := fun hout => (Nest.apart_of_mem_outer h.nodup hid hout).2 hinner
      have hmem : id ∉ t.stack := fun hmem => hgone ⟨hmem, h.outer_eq hmem ▸ hleft⟩
      rw [if_neg (by simp [hrun])] at hbehind
      rw [Nest.account_finish_of_mem hself hinner, Nest.closed, if_pos hrun,
        if_pos ⟨hleft, h.isOpen_of_running hrun, rfl⟩]
      exact hbehind.postpone (not_le.2 (h.lt_deepest hid hmem)) _
    · have hsame : i ∈ r.running ↔ i ∈ r.outer id := by
        rw [Nest.mem_running_iff hid]
        simp [hinner, hself]
      rw [Nest.account_finish_of_not_mem hself hinner]
      simpa [hsame] using hbehind

/-- Statements were ended in both, and the nest says which of them still run. -/
theorem of_closes {r' : Nest} {e : Endings} (hclosed : t.Closes now e t') (htracked : t'.Tracked)
    (huntracked : t'.untracked ≤ t.untracked) (hbegan : r'.began = r.began) (hdeepest : r'.deepest = r.deepest)
    (hrunning : r'.running <:+ r.running) (hgoOn : ∀ i ∈ r'.running, e i = none) (hstack : t'.stack <:+ r'.running)
    (hroom : t'.stack.length ≤ maxOpen)
    (hfull : ∀ i, t.isOpen i = true → e i = none → i ∉ t'.stack → t'.stack.length = maxOpen)
    (hbehind : ∀ i, (t.after now e i).Behind (r.deepest ≤ maxOpen)
      (if i ∉ r'.running ∧ t.isOpen i = true ∧ e i = none then 1 else 0) (r'.account i)) : Follows size t' r' where
  size := hclosed.size.trans h.size
  tracked := htracked
  stack := hstack
  nodup := hrunning.sublist.nodup h.nodup
  room := hroom
  full i hi hout := hfull i (hclosed.isOpen_iff.1 hi).1 (hclosed.isOpen_iff.1 hi).2 hout
  began i hi := by
    rw [hclosed.startOf, hgoOn i hi, hbegan]
    exact h.began i (hrunning.subset hi)
  depth := hdeepest ▸ hrunning.length_le.trans h.depth
  untracked hprecise := Nat.le_zero.1 (huntracked.trans_eq (h.untracked (hdeepest ▸ hprecise)))
  account i := by
    rw [hclosed.account, hdeepest]
    simp only [hclosed.isOpen_iff]
    exact hbehind i

/-- A statement that runs in the nest ends. -/
theorem endsIn_finish (hid : id ∈ r.running) (now rows : Counter) (isError : Bool) :
    EndsIn (fun t' => Follows size t' (r.finish id now rows.toNat isError))
      (t.StopsLate now (r.finish id now rows.toNat isError)) (t.finish id now rows isError) := by
  have hbehind := h.behind_finish hid now rows.toNat isError
  refine ((accounts_finish h.tracked (h.stack.sublist.nodup h.nodup) id now rows isError).and_ok fun t' ht' =>
    (finish_eq_ok h.tracked ht').2.1).imp ?_ fun f hf => hf.stopsLate hbehind
  rintro t' ⟨⟨hclosed, hstack, huntracked⟩, htracked⟩
  refine h.of_closes hclosed htracked (huntracked.trans_le (by split_ifs <;> omega)) rfl rfl ?_ ?_ ?_ ?_ ?_ hbehind
  · show r.outer id <:+ r.running
    conv_rhs => rw [Nest.running_eq hid]
    exact (List.suffix_cons _ _).trans (List.suffix_append _ _)
  · intro i hi
    rw [endings, if_neg (Nest.apart_of_mem_outer h.nodup hid hi).1, if_neg]
    rintro ⟨hmem, hout⟩
    exact hout (h.outer_eq hmem ▸ hi)
  · show t'.stack <:+ r.outer id
    rw [hstack]
    by_cases hmem : id ∈ t.stack
    · rw [h.outer_eq hmem]
    · rw [outer_of_not_mem hmem]
      exact h.suffix_outer hid hmem
  · rw [hstack]
    exact (t.outer_suffix id).length_le.trans h.room
  · intro i hopen hnone hout
    rw [hstack] at hout ⊢
    unfold endings at hnone
    split_ifs at hnone with hself hgone
    have hmem : id ∉ t.stack := fun hmem => hgone ⟨hmem, hout⟩
    rw [outer_of_not_mem hmem] at hout ⊢
    exact h.full i hopen hout

/-- A statement that does not run in the nest is closed in the tally, to begin again. -/
theorem endsIn_finish_of_not_running (hid : id ∉ r.running) (now : Counter) :
    EndsIn (fun t' => Follows size t' r ∧ t'.isOpen id = false) (t.StopsLate now r) (t.finish id now 0 true) := by
  have hmem : id ∉ t.stack := fun hmem => hid (h.mem_running_of_stack hmem)
  have hzero : (0 : Counter).toNat = 0 := rfl
  have hendings : ∀ i, t.endings id 0 true i = if i = id then some (0, true) else none := by
    intro i
    simp [endings, hmem]
  have hbehind : ∀ i, (t.after now (t.endings id 0 true) i).Behind (r.deepest ≤ maxOpen)
      (if i ∉ r.running ∧ t.isOpen i = true ∧ t.endings id 0 true i = none then 1 else 0) (r.account i) := by
    intro i
    by_cases hself : i = id
    · rw [after, hendings, if_pos hself, if_neg (by simp), Option.elim_some, hself]
      exact h.behind_of_not_running hid
    · rw [after, hendings, if_neg hself, Option.elim_none]
      simpa using h.account i
  refine ((accounts_finish h.tracked (h.stack.sublist.nodup h.nodup) id now 0 true).and_ok fun t' ht' =>
    (finish_eq_ok h.tracked ht').2).imp ?_ fun f hf => (hzero ▸ hf).stopsLate hbehind
  rintro t' ⟨⟨hclosed, hstack, huntracked⟩, htracked, hidle, -⟩
  rw [hzero] at hclosed
  rw [outer_of_not_mem hmem] at hstack
  rw [if_neg hmem] at huntracked
  refine ⟨h.of_closes hclosed htracked (huntracked.trans_le (Nat.sub_le ..)) rfl rfl List.suffix_rfl (fun i hi => ?_)
    (hstack ▸ h.stack) (hstack ▸ h.room) (fun i hopen _ hout => ?_) hbehind, hidle⟩
  · have hne : i ≠ id := fun he => hid (he ▸ hi)
    rw [hendings, if_neg hne]
  · rw [hstack] at hout ⊢
    exact h.full i hopen hout

/-- If all that runs is on the stack, it is the stack. -/
theorem stack_eq (hall : ∀ i ∈ r.running, i ∈ t.stack) : t.stack = r.running := by
  obtain ⟨deep, hdeep⟩ := h.stack
  cases deep with
  | nil => exact hdeep
  | cons i deep =>
    have hnodup := h.nodup
    rw [← hdeep, List.cons_append, List.nodup_cons] at hnodup
    exact absurd (List.mem_append_right _ (hall i (hdeep ▸ List.mem_cons_self))) hnodup.1

/-- As long as the stack has room, it is all that runs. -/
theorem stack_eq_of_lt (hshort : t.stack.length < maxOpen) : t.stack = r.running := by
  refine h.stack_eq fun i hi => ?_
  by_contra hout
  exact hshort.ne (h.full i (h.isOpen_of_running hi) hout)

/-- An idle statement begins in both. -/
theorem start (hid : id < size) (hidle : t.isOpen id = false) (now : Counter) :
    Follows size (t.start id now) (r.push id now) := by
  have hlt : id < t.size := h.size.symm ▸ hid
  have hnot : id ∉ r.running := fun hrun => by
    rw [h.isOpen_of_running hrun] at hidle
    cases hidle
  have hdeeper : r.deepest ≤ (r.push id now).deepest := le_max_left ..
  have hlonger : r.running.length + 1 ≤ (r.push id now).deepest := le_max_right ..
  have hlength := h.stack.length_le
  have hroom := h.room
  refine
    { size := (t.size_start id now).trans h.size
      tracked := (start_eq h.tracked hlt hidle now).2.1
      stack := ?stack
      nodup := List.nodup_cons.2 ⟨hnot, h.nodup⟩
      room := ?room
      full := fun i hi hout => ?full
      began := fun i hi => ?began
      depth := hlonger
      untracked := fun hprecise => ?untracked
      account := fun i => ?account }
  case stack =>
    rw [stack_start]
    show _ <:+ id :: r.running
    split_ifs with hshort
    · rw [h.stack_eq_of_lt hshort]
    · exact h.stack.trans (List.suffix_cons _ _)
  case room =>
    rw [stack_start]
    split_ifs with hshort
    · exact hshort
    · exact hroom
  case full =>
    rw [stack_start] at hout ⊢
    split_ifs at hout ⊢ with hshort
    · rw [List.mem_cons, not_or] at hout
      exact absurd (h.full i (((isOpen_start hlt now i).1 hi).resolve_left hout.1) hout.2) hshort.ne
    · exact le_antisymm hroom (not_lt.1 hshort)
  case began =>
    show _ = some (Function.update r.began id now i)
    rw [startOf_start hlt, Function.update_apply]
    split_ifs with hself
    · rfl
    · exact h.began i (List.mem_of_ne_of_mem hself hi)
  case untracked =>
    rw [untracked_start, if_pos (by omega)]
    exact h.untracked (hdeeper.trans hprecise)
  case account =>
    have hsame : i ∉ (r.push id now).running ∧ (t.start id now).isOpen i = true ↔
        i ∉ r.running ∧ t.isOpen i = true := by
      rw [isOpen_start hlt, Nest.push, List.mem_cons]
      by_cases hself : i = id
      · simp [hself, hidle]
      · simp [hself]
    rw [account_start hlt]
    simp only [hsame]
    exact (h.account i).imp hdeeper.trans

/-- A report that a statement begins. -/
theorem endsIn_begin (id : Nat) (now : Counter) :
    EndsIn (fun t' => Follows size t' (r.begin size id now)) (t.StopsLate now (r.begin size id now))
      (t.begin id now) := by
  unfold Tally.begin Nest.begin
  rw [h.size]
  split_ifs with hid hrun hopen hopen
  · have hfinish := (h.endsIn_finish hrun now 0 true).and_ok fun t₁ h₁ => (finish_eq_ok h.tracked h₁).2.2.1
    exact hfinish.bind fun t₁ h₁ => .ok (h₁.1.start hid h₁.2 now)
  · exact absurd (h.isOpen_of_running hrun) hopen
  · exact (h.endsIn_finish_of_not_running hrun now).bind fun t₁ h₁ => .ok (h₁.1.start hid h₁.2 now)
  · exact .ok (h.start hid (Bool.eq_false_iff.2 hopen) now)
  · exact .ok h

/-- One report. -/
theorem endsIn_take {hook : TimedHook Nat} {r' : Nest} (hr' : r.take size hook = some r') :
    EndsIn (fun t' => Follows size t' r') (t.StopsLate hook.now r') (t.take hook) := by
  cases hook with
  | begin id now =>
    cases hr'
    exact h.endsIn_begin id now
  | finish id now rows isError =>
    rw [Nest.take] at hr'
    split_ifs at hr' with hid
    cases hr'
    exact h.endsIn_finish hid now rows isError

/-- The end of a call: nothing is pending any more. -/
theorem endsIn_closeOpen (now : Counter) :
    EndsIn
      (fun out => (∀ i, (out.1.account i).Behind (r.deepest ≤ maxOpen) 0 ((r.closeOpen now).1.account i)) ∧
        (r.deepest ≤ maxOpen → out.2 = (r.closeOpen now).2))
      (t.StopsLate now (r.closeOpen now).1) (t.closeOpen now) := by
  have hbehind : ∀ i, (t.after now (.asErrors fun _ => True) i).Behind (r.deepest ≤ maxOpen) 0
      ((r.closeOpen now).1.account i) := by
    intro i
    show (t.closed now 0 true i).Behind (r.deepest ≤ maxOpen) 0 (r.closed now 0 true i)
    by_cases hrun : i ∈ r.running
    · exact h.behind_closed hrun
    · rw [Nest.closed, if_neg hrun]
      exact h.behind_of_not_running hrun
  refine (accounts_closeOpen h.tracked now).imp ?_ fun f hf => hf.stopsLate hbehind
  rintro out ⟨hclosed, -, -, hcount⟩
  refine ⟨fun i => hclosed.account i ▸ hbehind i, fun hprecise => ?_⟩
  have hstack : t.stack = r.running := h.stack_eq fun i hi => by
    by_contra hout
    exact absurd hprecise (not_le.2 (h.lt_deepest hi hout))
  have hnone : t.beyond.card = 0 := Nat.le_zero.1 (h.untracked hprecise ▸ h.tracked)
  rw [hcount (hstack ▸ h.nodup), hnone, hstack]
  exact List.countP_eq_length.2 fun i hi => h.isOpen_of_running hi

end Follows

/-! ### Whole calls -/

/-- When a call begins, there is nothing to tell a tally from a nest. -/
theorem follows_new (m : Numbering) (now : Counter) : Follows (new m now).size (new m now) .empty := by
  have hzero : ∀ i, (new m now).account i = .zero := by
    intro i
    unfold account
    cases hi : (new m now).timers[i]? with
    | none => rfl
    | some timer =>
      obtain ⟨line, fingerprint, rfl⟩ := ofLine_of_new hi
      rfl
  refine ⟨rfl, (new_eq m now).2.1, List.suffix_rfl, List.nodup_nil, Nat.zero_le _, fun i hi => ?_,
    fun i hi => absurd hi List.not_mem_nil, le_rfl, fun _ => rfl, fun i => ?_⟩
  · rw [isOpen_new] at hi
    cases hi
  · rw [hzero, if_neg (by simp [isOpen_new])]
    exact ⟨rfl, rfl, rfl, fun _ => rfl⟩

/-- At some report, or at the end of the call, some statement has spent more time than a counter can hold. -/
def Overlong : Tally → List (TimedHook Nat) → Counter → Prop
  | t, [], stop => ∃ i, 2 ^ 64 ≤ t.spent stop i
  | t, hook :: hooks, stop =>
    (∃ i, 2 ^ 64 ≤ t.spent hook.now i) ∨ ∃ t', t.take hook = .ok t' ∧ Overlong t' hooks stop

/-- On a clock that has not gone back, no statement has spent more time than the call. -/
theorem Within.spent_lt {t : Tally} {last now : Counter} {n rows : Nat} (h : t.Within last n rows) (hle : last ≤ now) :
    ¬ ∃ i, 2 ^ 64 ≤ t.spent now i := by
  rintro ⟨i, hi⟩
  have hspent := (h.later hle).spent_le i
  have hlt := now.toNat_lt
  omega

theorem not_overlong {t : Tally} {last stop : Counter} {n rows : Nat} {hooks : List (TimedHook Nat)}
    (hwithin : t.Within last n rows) (htracked : t.Tracked) (hclock : TimedHook.InOrder last hooks stop) :
    ¬ t.Overlong hooks stop := by
  induction hooks generalizing t last n rows with
  | nil => exact hwithin.spent_lt hclock.le
  | cons hook hooks ih =>
    obtain ⟨hle, hclock⟩ := hclock.cons
    rintro (hlong | ⟨t', ht', hlong⟩)
    · exact hwithin.spent_lt hle hlong
    · have htake := (hwithin.later hle).endsIn_take htracked
      rw [ht', endsIn_ok_iff] at htake
      exact ih htake.1.within htake.2.1 hclock hlong

end Tally

/-! ### Numbers of the nest only grow -/

theorem Account.TooMany.add {a : Account} (h : a.TooMany) (time rows : Nat) (isError : Bool) :
    (a.add time rows isError).TooMany := by
  unfold TooMany at h ⊢
  unfold Account.add
  dsimp only
  omega

namespace Nest

variable {r r' : Nest} {size id i : Nat} {now : Counter} {rows : Nat} {isError : Bool}

theorem tooMany_closed (h : (r.account i).TooMany) : (r.closed now rows isError i).TooMany := by
  unfold closed
  split_ifs
  · exact h.add ..
  · exact h

theorem TooMany.finish (h : r.TooMany) (id : Nat) (now : Counter) (rows : Nat) (isError : Bool) :
    (r.finish id now rows isError).TooMany := by
  obtain ⟨i, hi⟩ := h
  refine ⟨i, ?_⟩
  unfold Nest.finish
  dsimp only
  split_ifs
  · exact tooMany_closed hi
  · exact tooMany_closed hi
  · exact hi

theorem TooMany.take {hook : TimedHook Nat} (h : r.TooMany) (hr' : r.take size hook = some r') : r'.TooMany := by
  cases hook with
  | begin id now =>
    cases hr'
    unfold Nest.begin
    split_ifs
    · exact h.finish id now 0 true
    · exact h
    · exact h
  | finish id now rows isError =>
    rw [Nest.take] at hr'
    split_ifs at hr'
    cases hr'
    exact h.finish id now rows.toNat isError

theorem TooMany.run {hooks : List (TimedHook Nat)} (h : r.TooMany) (hr' : hooks.foldlM (Nest.take size) r = some r') :
    r'.TooMany := by
  induction hooks generalizing r with
  | nil =>
    cases hr'
    exact h
  | cons hook hooks ih =>
    rw [List.foldlM_cons] at hr'
    obtain ⟨r₁, hr₁, hr'⟩ := Option.bind_eq_some_iff.1 hr'
    exact ih (h.take hr₁) hr'

theorem TooMany.closeOpen (h : r.TooMany) (now : Counter) : (r.closeOpen now).1.TooMany :=
  h.imp fun _ hi => tooMany_closed hi

end Nest

namespace Tally

/-- The reports of a call, one after another, and its end. -/
theorem Follows.endsIn_run {size : Nat} {t : Tally} {r r' : Nest} (h : Follows size t r)
    {hooks : List (TimedHook Nat)} (hr' : hooks.foldlM (Nest.take size) r = some r') (stop : Counter) :
    EndsIn
      (fun out => (∀ i, (out.1.account i).Behind (r'.deepest ≤ maxOpen) 0 ((r'.closeOpen stop).1.account i)) ∧
        (r'.deepest ≤ maxOpen → out.2 = (r'.closeOpen stop).2))
      (fun f => f = .addOverflow ∧ (t.Overlong hooks stop ∨ (r'.closeOpen stop).1.TooMany))
      (hooks.foldlM Tally.take t >>= fun t => t.closeOpen stop) := by
  induction hooks generalizing t r with
  | nil =>
    cases hr'
    exact h.endsIn_closeOpen stop
  | cons hook hooks ih =>
    rw [List.foldlM_cons] at hr'
    obtain ⟨r₁, hr₁, hr'⟩ := Option.bind_eq_some_iff.1 hr'
    rw [List.foldlM_cons, bind_assoc]
    have htake := (h.endsIn_take hr₁).and_ok fun t₁ ht₁ => ht₁
    refine (htake.imp (fun _ h₁ => h₁) fun f hf => ?_).bind fun t₁ h₁ => ?_
    · exact ⟨hf.1, hf.2.imp .inl fun hmany => (hmany.run hr').closeOpen stop⟩
    · exact (ih h₁.1 hr').imp (fun _ hout => hout) fun f hf =>
        ⟨hf.1, hf.2.imp_left fun hlong => .inr ⟨t₁, h₁.2, hlong⟩⟩

/-- **A tally counts as with an unbounded stack.**  Whatever statements begin and end, at whatever times, with whatever
rows and errors, if only such ends are reported as end a statement that runs in the nest: at the end of the call, each
statement was executed as often, with as many errors and as many rows, as in the nest; and if there never ran more
statements than the stack has room for, all times are the same too, and so is the number of statements that were closed
at last.  Nothing keeps the call from ending in this way but a sum that overflows: a number of the nest, or the time of
a statement, which cannot be if the clock never goes back. -/
theorem counts_as_unbounded {m : Numbering} {start : Counter} {hooks : List (TimedHook Nat)} {r : Nest}
    (hrun : hooks.foldlM (Nest.take (new m start).size) .empty = some r) (stop : Counter) :
    EndsIn
      (fun out =>
        (∀ i, (out.1.account i).execCount = ((r.closeOpen stop).1.account i).execCount ∧
          (out.1.account i).errorCount = ((r.closeOpen stop).1.account i).errorCount ∧
          (out.1.account i).rows = ((r.closeOpen stop).1.account i).rows) ∧
        (r.deepest ≤ maxOpen →
          out.2 = (r.closeOpen stop).2 ∧ ∀ i, out.1.account i = (r.closeOpen stop).1.account i))
      (fun f => f = .addOverflow ∧ ((new m start).Overlong hooks stop ∨ (r.closeOpen stop).1.TooMany))
      (hooks.foldlM Tally.take (new m start) >>= fun t => t.closeOpen stop) ∧
    (TimedHook.InOrder start hooks stop → ¬ (new m start).Overlong hooks stop) := by
  refine ⟨((follows_new m start).endsIn_run hrun stop).imp ?_ fun f hf => hf,
    not_overlong (new_timely m start).1 (new_eq m start).2.1⟩
  rintro out ⟨hbehind, hcount⟩
  exact ⟨fun i => ⟨(hbehind i).execCount.symm, (hbehind i).errorCount.symm, (hbehind i).rows.symm⟩,
    fun hprecise => ⟨hcount hprecise, fun i => (hbehind i).eq hprecise⟩⟩

/-- The statements of a block with 65 assignments. -/
def deepNumbering : Numbering where
  identity := ⟨1, 1, 1, 0⟩
  index := .lines .empty
  nativeIds := List.replicate 66 none
  lines := List.replicate 66 1
  fingerprints := List.replicate 66 none

/-- All statements begin, one inside another.  Then the last but one ends over the last, which begins once more, and a
statement on the stack ends over most of the others. -/
def deepHooks : List (TimedHook Nat) :=
  (List.range 66).map (.begin · 0) ++ [.finish 64 3 0 false, .begin 65 4, .finish 2 9 5 false]

/-- The time of the last statement is not the same: its first execution was closed only when it began once more. -/
theorem counts_as_unbounded_deepHooks :
    ∃ r out, deepHooks.foldlM (Nest.take (new deepNumbering 0).size) .empty = some r ∧
      (deepHooks.foldlM Tally.take (new deepNumbering 0) >>= fun t => t.closeOpen 10) = .ok out ∧
      r.deepest = 66 ∧ ((r.closeOpen 10).1.account 65).elapsed = 8 ∧ (out.1.account 65).elapsed = 9 ∧
      ∀ i, (out.1.account i).execCount = ((r.closeOpen 10).1.account i).execCount ∧
        (out.1.account i).errorCount = ((r.closeOpen 10).1.account i).errorCount ∧
        (out.1.account i).rows = ((r.closeOpen 10).1.account i).rows := by
  have hnest : (deepHooks.foldlM (Nest.take (new deepNumbering 0).size) .empty).map
      (fun r => (r.deepest, ((r.closeOpen 10).1.account 65).elapsed)) = some (66, 8) := by decide +kernel
  have htally : (deepHooks.foldlM Tally.take (new deepNumbering 0) >>= fun t => t.closeOpen 10).map
      (fun out => (out.1.account 65).elapsed) = .ok 9 := by decide +kernel
  obtain ⟨r, hr, hnumbers⟩ := Option.map_eq_some_iff.1 hnest
  obtain ⟨out, hout, htime⟩ := map_eq_ok_iff.1 htally
  have hcounts := (counts_as_unbounded hr 10).1
  rw [hout, endsIn_ok_iff] at hcounts
  exact ⟨r, out, hr, hout, congrArg Prod.fst hnumbers, congrArg Prod.snd hnumbers, htime, hcounts.1⟩

/-- The last statement runs as long as a counter can say, and begins once more.  Then the last but one ends over it, on
a clock that was set back. -/
def lateHooks : List (TimedHook Nat) :=
  (List.range 66).map (.begin · 0) ++ [.finish 65 0xffffffffffffffff 0 false, .begin 65 0, .finish 64 0 0 false]

/-- In the nest, the second execution of the last statement takes no time.  In the tally its closing is pending until
the call ends, one microsecond later, which is one too many. -/
theorem pending_closing_overflows :
    (∃ r, lateHooks.foldlM (Nest.take (new deepNumbering 0).size) .empty = some r ∧
      (r.closeOpen 1).1.account 65 = ⟨0xffffffffffffffff, 0xffffffffffffffff, 0, 2, 1⟩) ∧
    (lateHooks.foldlM Tally.take (new deepNumbering 0) >>= fun t => t.closeOpen 1) = .error .addOverflow := by
  have hnest : (lateHooks.foldlM (Nest.take (new deepNumbering 0).size) .empty).map
      (fun r => (r.closeOpen 1).1.account 65) = some ⟨0xffffffffffffffff, 0xffffffffffffffff, 0, 2, 1⟩ := by
    decide +kernel
  have htally : (lateHooks.foldlM Tally.take (new deepNumbering 0) >>= fun t => t.closeOpen 1).map
      (fun out => out.2) = .error .addOverflow := by decide +kernel
  refine ⟨Option.map_eq_some_iff.1 hnest, ?_⟩
  cases hout : lateHooks.foldlM Tally.take (new deepNumbering 0) >>= fun t => t.closeOpen 1 with
  | ok out =>
    rw [hout] at htally
    cases htally
  | error f =>
    rw [hout] at htally
    cases htally
    rfl

end Tally

end ProcProfile
