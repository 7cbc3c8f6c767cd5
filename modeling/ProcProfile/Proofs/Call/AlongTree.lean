import Mathlib.Algebra.BigOperators.Group.Finset.Basic
import Mathlib.Algebra.Order.BigOperators.Group.List
import Mathlib.Tactic
import ProcProfile.Proofs.Call.Times

/-!
# Calls that follow their tree

A host that follows the tree of a copy begins a statement directly inside the innermost running one, and ends the
innermost running one; it may report the root or not.  Then a statement runs for at least as long as the
statements directly inside it together, so that nothing is cut off when their times are taken from its own, and
the self times of a call add up to the time of its root.  This holds at any depth, also where a tally only counts
the innermost running statements.

* `FollowsTree`, `timeOn`, `inclusiveTime`: such reports, and the time of each statement by the reports alone;
* `Path.sum_children_le`, `sum_timeOn_le`: at any time at most one statement directly inside another runs;
* `Tally.RunsAlong`: the running statements as a tally keeps them;
* `Tally.endsIn_takeAll`: a tally measures the time of each statement;
* `Call.selfTimes_add_up`: so the self times of a call add up.
-/

namespace ProcProfile

open Statement

/-! ### Reports that follow a tree -/

/-- Whether the host ever reports that the root begins. -/
def rootReported (hooks : List (TimedHook Nat)) : Bool := hooks.any (TimedHook.begins 0)

/-- A statement may begin inside the innermost running one.  When nothing runs, the root may, or, if the host
never reports the root, a statement directly inside it. -/
def MayBegin (body : Statement) (reported : Bool) (i : Nat) : List Nat → Prop
  | [] => if reported then i = 0 else i ∈ body.children 0
  | k :: _ => i ∈ body.children k

/-- A report is in step with the running statements, the innermost of which is in front. -/
def InStep (body : Statement) (reported : Bool) (running : List Nat) : TimedHook Nat → Prop
  | .begin i _ => MayBegin body reported i running
  | .finish i _ _ _ => running.head? = some i

instance (body : Statement) (reported : Bool) (i : Nat) :
    (running : List Nat) → Decidable (MayBegin body reported i running)
  | [] => inferInstanceAs (Decidable (if reported then i = 0 else i ∈ body.children 0))
  | k :: _ => inferInstanceAs (Decidable (i ∈ body.children k))

instance (body : Statement) (reported : Bool) (running : List Nat) :
    (hook : TimedHook Nat) → Decidable (InStep body reported running hook)
  | .begin i _ => inferInstanceAs (Decidable (MayBegin body reported i running))
  | .finish i _ _ _ => inferInstanceAs (Decidable (running.head? = some i))

/-- The running statements after a report that is in step with them. -/
def TimedHook.move (running : List Nat) : TimedHook Nat → List Nat
  | .begin i _ => i :: running
  | .finish .. => running.tail

/-- Reports that follow the tree of a copy, from some running statements on. -/
def FollowsTree (body : Statement) (reported : Bool) : List Nat → List (TimedHook Nat) → Prop
  | _, [] => True
  | running, hook :: hooks =>
    InStep body reported running hook ∧ FollowsTree body reported (hook.move running) hooks

instance decidableFollowsTree (body : Statement) (reported : Bool) :
    (running : List Nat) → (hooks : List (TimedHook Nat)) → Decidable (FollowsTree body reported running hooks)
  | _, [] => inferInstanceAs (Decidable True)
  | running, hook :: hooks =>
    have := decidableFollowsTree body reported (hook.move running) hooks
    inferInstanceAs (Decidable (_ ∧ _))

/-- For how long a statement runs, from the time `last` on. -/
def timeOn (i : Nat) : List Nat → Counter → List (TimedHook Nat) → Counter → Nat
  | running, last, [], stop => if i ∈ running then stop.toNat - last.toNat else 0
  | running, last, hook :: hooks, stop =>
    (if i ∈ running then hook.now.toNat - last.toNat else 0) + timeOn i (hook.move running) hook.now hooks stop

/-- The inclusive time of a statement in a call.  A root that is never reported runs for the whole call. -/
def inclusiveTime (hooks : List (TimedHook Nat)) (start stop : Counter) (i : Nat) : Nat :=
  if i = 0 ∧ rootReported hooks = false then stop.toNat - start.toNat else timeOn i [] start hooks stop

/-! ### Running statements form a path -/

/-- A path in a tree from the root down, the innermost statement in front. -/
inductive Path (body : Statement) : List Nat → Prop
  | nil : Path body []
  | root : Path body [0]
  | child {c k : Nat} {path : List Nat} (h : Path body (k :: path)) (hc : c ∈ body.children k) :
    Path body (c :: k :: path)

namespace Path

variable {body : Statement} {path : List Nat}

theorem tail (h : Path body path) : Path body path.tail := by
  cases h with
  | nil => exact .nil
  | root => exact .nil
  | child h _ => exact h

theorem le_head {k : Nat} (h : Path body (k :: path)) {j : Nat} (hj : j ∈ k :: path) : j ≤ k := by
  induction path generalizing k with
  | nil => exact (List.mem_singleton.1 hj).le
  | cons k' path ih =>
    cases h with
    | child h hc =>
      rcases List.mem_cons.1 hj with rfl | hj
      · exact le_rfl
      · exact (ih h hj).trans (lt_of_mem_children hc).le

/-- A child of the innermost statement is not on the path yet. -/
theorem not_mem_of_child {c k : Nat} (h : Path body (k :: path)) (hc : c ∈ body.children k) :
    c ∉ k :: path := by
  intro hmem
  have := h.le_head hmem
  have := lt_of_mem_children hc
  omega

/-- On a path there is at most one of the statements directly inside another, and only if that one is on the path
too. -/
theorem sum_children_le (h : Path body path) (k d : Nat) :
    ((body.children k).map fun c => if c ∈ path then d else 0).sum ≤ if k ∈ path then d else 0 := by
  induction h with
  | nil => simp
  | root =>
    have hzero : ∀ c ∈ body.children k, (if c ∈ [0] then d else 0) = 0 := by
      intro c hc
      have := lt_of_mem_children hc
      exact if_neg (by simp; omega)
    rw [List.map_congr_left hzero]
    simp
  | @child c' k' path h hc' ih =>
    by_cases hk : k = k'
    · -- the children of `k'` are not on the path above, so that only `c'` is left
      subst hk
      have honly : ∀ c ∈ body.children k, (if c ∈ c' :: k :: path then d else 0) = if c = c' then d else 0 := by
        intro c hc
        by_cases he : c = c'
        · rw [if_pos (by simp [he]), if_pos he]
        · rw [if_neg he, if_neg]
          exact fun hmem => (List.mem_cons.1 hmem).elim he (h.not_mem_of_child hc)
      rw [List.map_congr_left honly, if_pos (by simp), ← List.sum_toFinset _ (nodup_children body k)]
      rw [Finset.sum_ite_eq']
      split_ifs <;> omega
    · have hsame : ∀ c ∈ body.children k,
          (if c ∈ c' :: k' :: path then d else 0) = if c ∈ k' :: path then d else 0 := by
        intro c hc
        have hne : c ≠ c' := fun he => hk (parent_unique (he ▸ hc) hc')
        simp [hne]
      rw [List.map_congr_left hsame]
      refine ih.trans ?_
      by_cases hmem : k ∈ k' :: path
      · rw [if_pos hmem, if_pos (List.mem_cons_of_mem _ hmem)]
      · rw [if_neg hmem]
        exact Nat.zero_le _

end Path

/-- The path of the running statements, with the root if the host never reports it. -/
def pathOf (reported : Bool) (running : List Nat) : List Nat := if reported then running else running ++ [0]

theorem mem_pathOf {reported : Bool} {running : List Nat} {k : Nat} :
    k ∈ pathOf reported running ↔ k = 0 ∧ reported = false ∨ k ∈ running := by
  cases reported <;> simp [pathOf, or_comm]

section Follows

variable {body : Statement} {reported : Bool} {running : List Nat}

/-- What begins is directly inside the innermost statement of the path, if there is one. -/
theorem MayBegin.path {i : Nat} (h : MayBegin body reported i running)
    (hpath : Path body (pathOf reported running)) : Path body (pathOf reported (i :: running)) := by
  unfold pathOf at hpath ⊢
  cases running with
  | nil =>
    cases reported with
    | true =>
      obtain rfl : i = 0 := h
      exact .root
    | false => exact .child .root h
  | cons k running =>
    cases reported with
    | true => exact .child hpath h
    | false => exact .child hpath h

/-- The running statements stay on a path. -/
theorem InStep.path {hook : TimedHook Nat} (h : InStep body reported running hook)
    (hpath : Path body (pathOf reported running)) : Path body (pathOf reported (hook.move running)) := by
  cases hook with
  | begin i now => exact MayBegin.path h hpath
  | finish i now rows isError =>
    obtain ⟨rest, rfl⟩ := List.head?_eq_some_iff.1 h
    unfold pathOf at hpath ⊢
    cases reported with
    | true => exact hpath.tail
    | false => exact hpath.tail

/-- What begins was not running, and is a statement of the tree. -/
theorem MayBegin.not_mem {i : Nat} (h : MayBegin body reported i running)
    (hpath : Path body (pathOf reported running)) : i ∉ running ∧ i < body.count := by
  have hlt : ∀ {k : Nat}, i ∈ body.children k → i < body.count := by
    intro k hi
    cases hs : body.preorder[k]? with
    | none => simp [children, hs] at hi
    | some s => exact (lt_end_of_mem_children hi hs).trans_le (add_count_le hs)
  cases running with
  | nil =>
    refine ⟨List.not_mem_nil, ?_⟩
    cases reported with
    | true =>
      obtain rfl : i = 0 := h
      exact body.count_pos
    | false => exact hlt h
  | cons k running =>
    refine ⟨fun hmem => ?_, hlt h⟩
    unfold pathOf at hpath
    cases reported with
    | true => exact hpath.not_mem_of_child h hmem
    | false => exact hpath.not_mem_of_child h (List.mem_append_left _ hmem)

/-! ### Time inside a statement -/

/-- While some statements run, at most one statement directly inside another does. -/
theorem sum_running_le (hpath : Path body (pathOf reported running)) (k d : Nat) :
    ((body.children k).map fun c => if c ∈ running then d else 0).sum ≤
      if k = 0 ∧ reported = false ∨ k ∈ running then d else 0 := by
  have hsame : ∀ c ∈ body.children k,
      (if c ∈ running then d else 0) = if c ∈ pathOf reported running then d else 0 := by
    intro c hc
    have hne : c ≠ 0 := by have := lt_of_mem_children hc; omega
    simp [mem_pathOf, hne]
  rw [List.map_congr_left hsame]
  refine (hpath.sum_children_le k d).trans (le_of_eq ?_)
  simp only [mem_pathOf]

/-- The statements directly inside another run for no longer than that one, together.  If the host never reports
the root, the root runs all the time. -/
theorem sum_timeOn_le {hooks : List (TimedHook Nat)} {last stop : Counter}
    (hfollows : FollowsTree body reported running hooks) (hpath : Path body (pathOf reported running))
    (hclock : TimedHook.InOrder last hooks stop) (k : Nat) :
    ((body.children k).map fun c => timeOn c running last hooks stop).sum ≤
      if k = 0 ∧ reported = false then stop.toNat - last.toNat else timeOn k running last hooks stop := by
  induction hooks generalizing running last with
  | nil =>
    have hle := sum_running_le hpath k (stop.toNat - last.toNat)
    by_cases hroot : k = 0 ∧ reported = false
    · rw [if_pos (.inl hroot)] at hle
      rwa [if_pos hroot]
    · simpa only [timeOn, hroot, false_or, if_false] using hle
  | cons hook hooks ih =>
    have hnow := UInt64.le_iff_toNat_le.1 hclock.cons.1
    have hstop := UInt64.le_iff_toNat_le.1 hclock.cons.2.le
    have hfirst := sum_running_le hpath k (hook.now.toNat - last.toNat)
    have hrest := ih hfollows.2 (hfollows.1.path hpath) hclock.cons.2
    simp only [timeOn, List.sum_map_add]
    by_cases hroot : k = 0 ∧ reported = false
    · rw [if_pos (.inl hroot)] at hfirst
      rw [if_pos hroot] at hrest ⊢
      omega
    · simp only [hroot, false_or, if_false] at hfirst hrest ⊢
      omega

end Follows

/-! ### The tally along a path -/

namespace Tally

variable {t t' : Tally} {running : List Nat} {i : Nat}

/-- The running statements as a tally keeps them: those that began while its stack was full are counted only. -/
structure RunsAlong (t : Tally) (running : List Nat) : Prop where
  nodup : running.Nodup
  isOpen : ∀ i, t.isOpen i = true ↔ i ∈ running
  split : ∃ extra, running = extra ++ t.stack ∧ t.untracked = extra.length ∧
    (extra ≠ [] → maxOpen ≤ t.stack.length)

/-- A statement that begins becomes the innermost one. -/
theorem RunsAlong.begin (h : t.RunsAlong running) (hi : i ∉ running) (hsize : i < t.size) {now : Counter}
    (hbegin : t.begin i now = .ok t') : t'.RunsAlong (i :: running) := by
  have hidle : t.isOpen i = false := by
    rw [Bool.eq_false_iff, ne_eq, h.isOpen]
    exact hi
  unfold Tally.begin at hbegin
  rw [if_pos hsize, if_neg (by simp [hidle])] at hbegin
  cases hbegin
  obtain ⟨extra, hsplit, huntracked, hfull⟩ := h.split
  obtain ⟨timer, htimer⟩ : ∃ timer, t.timers[i]? = some timer := ⟨_, Array.getElem?_eq_getElem hsize⟩
  refine ⟨List.nodup_cons.2 ⟨hi, h.nodup⟩, fun j => ?_, ?_⟩
  · rw [(changed_start htimer now).isOpen_eq, List.mem_cons, ← h.isOpen]
    by_cases hj : j = i
    · simp [hj, Timer.isOpen]
    · simp [hj]
  · unfold start
    dsimp only
    split_ifs with hroom
    · -- a stack with room means that nothing is counted only
      obtain rfl : extra = [] := by
        by_contra hne
        have := hfull hne
        omega
      exact ⟨[], by simpa using hsplit, huntracked, fun hne => absurd rfl hne⟩
    · exact ⟨i :: extra, by rw [hsplit, List.cons_append], by simpa using huntracked, fun _ => not_lt.1 hroom⟩

/-- Closing the timer of the innermost statement leaves the others, if they are kept. -/
theorem RunsAlong.of_close {t₁ : Tally} (h : t.RunsAlong (i :: running)) {now rows : Counter}
    {isError ran : Bool} (hclose : t₁.close i now rows isError = .ok (t', ran)) (htimers : t₁.timers = t.timers)
    (hsplit : ∃ extra, running = extra ++ t₁.stack ∧ t₁.untracked = extra.length ∧
      (extra ≠ [] → maxOpen ≤ t₁.stack.length)) : t'.RunsAlong running := by
  obtain ⟨hi, hnodup⟩ := List.nodup_cons.1 h.nodup
  obtain ⟨hstack, huntracked, -, hopen, -⟩ := close_eq_ok hclose
  refine ⟨hnodup, fun j => ?_, by rwa [hstack, huntracked]⟩
  have hsame : t₁.isOpen j = t.isOpen j := by rw [Tally.isOpen, htimers, Tally.isOpen]
  rw [hopen, hsame, h.isOpen, List.mem_cons]
  constructor
  · rintro ⟨hj | hj, hne⟩
    · exact absurd hj hne
    · exact hj
  · intro hj
    exact ⟨.inr hj, fun he => hi (he ▸ hj)⟩

/-- When the innermost statement ends, nothing else does. -/
theorem RunsAlong.finish (h : t.RunsAlong (i :: running)) {now rows : Counter} {isError : Bool}
    (hfinish : t.finish i now rows isError = .ok t') : t'.RunsAlong running := by
  obtain ⟨hi, -⟩ := List.nodup_cons.1 h.nodup
  obtain ⟨extra, hsplit, huntracked, hfull⟩ := h.split
  unfold Tally.finish at hfinish
  dsimp only at hfinish
  cases extra with
  | nil =>
    rw [List.nil_append] at hsplit
    have hmem : t.stack.contains i = true := by rw [← hsplit]; simp
    have htake : t.stack.takeWhile (· != i) = [] := by rw [← hsplit]; simp
    have hdrop : (t.stack.dropWhile (· != i)).tail = running := by rw [← hsplit]; simp
    rw [if_pos hmem, htake, hdrop] at hfinish
    obtain ⟨⟨t₁, n⟩, hnone, hfinish⟩ := bind_eq_ok_iff.1 hfinish
    cases hnone
    rw [if_neg (by simp [huntracked])] at hfinish
    obtain ⟨t₁, hpure, hfinish⟩ := bind_eq_ok_iff.1 hfinish
    cases hpure
    obtain ⟨⟨t₂, ran⟩, hclose, hfinish⟩ := bind_eq_ok_iff.1 hfinish
    cases hfinish
    exact h.of_close hclose rfl ⟨[], rfl, huntracked, fun hne => absurd rfl hne⟩
  | cons j extra =>
    rw [List.cons_append, List.cons.injEq] at hsplit
    obtain ⟨rfl, hsplit⟩ := hsplit
    have hmem : ¬ t.stack.contains i = true := by
      rw [hsplit] at hi
      simpa using fun hs => hi (List.mem_append_right _ hs)
    rw [if_neg hmem, if_pos ((h.isOpen i).2 (by simp))] at hfinish
    obtain ⟨t₁, hpure, hfinish⟩ := bind_eq_ok_iff.1 hfinish
    cases hpure
    obtain ⟨⟨t₂, ran⟩, hclose, hfinish⟩ := bind_eq_ok_iff.1 hfinish
    cases hfinish
    exact h.of_close hclose rfl ⟨extra, hsplit, by simp [huntracked], fun _ => hfull (by simp)⟩

/-- A report that is in step moves the running statements on. -/
theorem RunsAlong.take {body : Statement} {reported : Bool} {hook : TimedHook Nat} (h : t.RunsAlong running)
    (hstep : InStep body reported running hook) (hpath : Path body (pathOf reported running))
    (hsize : t.size = body.count) (htake : t.take hook = .ok t') : t'.RunsAlong (hook.move running) := by
  cases hook with
  | begin i now =>
    obtain ⟨hi, hlt⟩ := MayBegin.not_mem hstep hpath
    exact h.begin hi (by rwa [hsize]) htake
  | finish i now rows isError =>
    obtain ⟨rest, rfl⟩ := List.head?_eq_some_iff.1 hstep
    exact h.finish htake

/-- What a tally has measured after reports that follow a tree. -/
structure MeasuredAlong (t : Tally) (running : List Nat) (last : Counter) (hooks : List (TimedHook Nat))
    (stop : Counter) (n rows : Nat) (t' : Tally) : Prop where
  within : t'.Within stop (n + hooks.length) (rows + TimedHook.totalRows hooks)
  tracked : t'.Tracked
  sites : t'.sites = t.sites
  startedAt : t'.startedAt = t.startedAt
  begun : t'.begun 0 = t.begun 0 + hooks.countP (TimedHook.begins 0)
  spent : ∀ i, t'.spent stop i = t.spent last i + timeOn i running last hooks stop

/-- A tally measures for how long each statement runs. -/
theorem RunsAlong.endsIn_takeAll {body : Statement} {reported : Bool} {hooks : List (TimedHook Nat)}
    {last stop : Counter} {n rows : Nat} (h : t.RunsAlong running) (hwithin : t.Within last n rows)
    (htracked : t.Tracked) (hsize : t.size = body.count) (hclock : TimedHook.InOrder last hooks stop)
    (hfollows : FollowsTree body reported running hooks) (hpath : Path body (pathOf reported running)) :
    EndsIn (MeasuredAlong t running last hooks stop n rows)
      (Overflow (n + hooks.length) (rows + TimedHook.totalRows hooks)) (hooks.foldlM Tally.take t) := by
  induction hooks generalizing t running last n rows with
  | nil =>
    refine .ok ⟨hwithin.later hclock.le, htracked, rfl, rfl, rfl, fun i => ?_⟩
    rw [hwithin.spent_later hclock.le, timeOn]
    simp only [h.isOpen]
  | cons hook hooks ih =>
    have hlength : n + (hook :: hooks).length = n + 1 + hooks.length := by rw [List.length_cons]; omega
    have hrows : rows + TimedHook.totalRows (hook :: hooks) = rows + hook.rows + TimedHook.totalRows hooks :=
      (Nat.add_assoc ..).symm
    have hroot : 0 < t.size := by rw [hsize]; exact body.count_pos
    have htake := ((hwithin.later hclock.cons.1).endsIn_take htracked).and_ok fun t' ht' =>
      h.take hfollows.1 hpath hsize ht'
    rw [hlength, hrows, List.foldlM_cons]
    refine (htake.imp (fun _ hc => hc) fun f hf => hf.mono (Nat.le_add_right _ _) (Nat.le_add_right _ _)).bind
      fun t₁ h₁ => ?_
    obtain ⟨⟨htimely, htracked₁, hsites, hbegun⟩, halong⟩ := h₁
    have hsize₁ : t₁.size = body.count := by rw [← length_sites, hsites, length_sites, hsize]
    have hrest := ih halong htimely.within htracked₁ hsize₁ hclock.cons.2 hfollows.2 (hfollows.1.path hpath)
    refine hrest.imp (fun t' ht' => ?_) fun f hf => hf
    refine ⟨by rw [hlength, hrows]; exact ht'.within, ht'.tracked, ht'.sites.trans hsites,
      ht'.startedAt.trans htimely.startedAt, ?_, fun i => ?_⟩
    · rw [ht'.begun, hbegun 0 hroot, List.countP_cons]
      omega
    · rw [ht'.spent, htimely.spent, hwithin.spent_later hclock.cons.1, timeOn, Nat.add_assoc]
      simp only [h.isOpen]

end Tally

/-! ### Self times add up -/

namespace Call

variable {p : Procedure}

theorem what_lt_count {reported : Bool} {running : List Nat} {hooks : List (TimedHook Nat)}
    (hfollows : FollowsTree p.body reported running hooks) (hpath : Path p.body (pathOf reported running))
    (hrunning : ∀ i ∈ running, i < p.body.count) : ∀ hook ∈ hooks, hook.what < p.body.count := by
  induction hooks generalizing running with
  | nil => simp
  | cons hook hooks ih =>
    obtain ⟨hstep, hrest⟩ := hfollows
    have hwhat : hook.what < p.body.count := by
      cases hook with
      | begin i now => exact (MayBegin.not_mem hstep hpath).2
      | finish i now rows isError => exact hrunning i (List.mem_of_mem_head? hstep)
    intro hook' hhook'
    rcases List.mem_cons.1 hhook' with rfl | hhook'
    · exact hwhat
    · refine ih hrest (hstep.path hpath) (fun i hi => ?_) hook' hhook'
      cases hook with
      | begin j now =>
        rcases List.mem_cons.1 hi with rfl | hi
        · exact hwhat
        · exact hrunning i hi
      | finish j now rows isError => exact hrunning i (List.mem_of_mem_tail hi)

theorem runsAlong_new (m : Numbering) (now : Counter) : (Tally.new m now).RunsAlong [] := by
  refine ⟨List.nodup_nil, fun i => ?_, [], rfl, rfl, fun hne => absurd rfl hne⟩
  have hnone : (Tally.new m now).begun i = 0 := (Tally.new_eq m now).2.2.1 i
  simp only [List.not_mem_nil, iff_false]
  intro hopen
  simp [Tally.begun, hopen] at hnone

/-- The time that a call has measured for each statement is the inclusive time by the reports. -/
theorem measured_eq {c : Call} {m : Numbering} {start stop : Counter} {hooks : List (TimedHook Nat)} {n rows : Nat}
    (h : (Tally.new m start).MeasuredAlong [] start hooks stop n rows c.tally) :
    c.measured stop = inclusiveTime hooks start stop := by
  have hspent : ∀ i, c.tally.spent stop i = timeOn i [] start hooks stop := by
    intro i
    rw [h.spent, (Tally.new_timely m start).2, Nat.zero_add]
  have hbegun : c.tally.begun 0 = 0 ↔ rootReported hooks = false := by
    rw [h.begun, (Tally.new_eq m start).2.2.1, Nat.zero_add, List.countP_eq_zero, rootReported,
      List.any_eq_false]
  have hstart : c.tally.startedAt = start := h.startedAt
  funext i
  simp only [measured, inclusiveTime, hbegun, hspent, hstart]

/-- The statements directly inside another take no longer than that one. -/
theorem sum_inclusiveTime_le {start stop : Counter} {hooks : List (TimedHook Nat)}
    (hclock : TimedHook.InOrder start hooks stop)
    (hfollows : FollowsTree p.body (rootReported hooks) [] hooks)
    (hpath : Path p.body (pathOf (rootReported hooks) [])) :
    AllFrom (fun k s => ((positions (k + 1) s.nested).map (inclusiveTime hooks start stop)).sum ≤
      inclusiveTime hooks start stop k) 0 p.body.preorder := by
  intro k s hs
  rw [Nat.zero_add, ← children_eq hs]
  have hinside : ∀ c ∈ p.body.children k, inclusiveTime hooks start stop c = timeOn c [] start hooks stop := by
    intro c hc
    have := lt_of_mem_children hc
    exact if_neg fun h => by omega
  rw [List.map_congr_left hinside]
  exact sum_timeOn_le hfollows hpath hclock k

/-- The records of a call that follows the tree of its copy: for every statement the self time and the inclusive
times of the statements directly inside it add up to its own inclusive time, and all self times add up to the
inclusive time of the root, which is the time of the call if the root was never reported.  The records are given
unless a count of executions or of rows overflows. -/
theorem selfTimes_add_up {m : Numbering} (hbuild : Numbering.build p = .ok m) {start stop : Counter}
    {hooks : List (TimedHook Nat)} (hclock : TimedHook.InOrder start hooks stop)
    (hfollows : FollowsTree p.body (rootReported hooks) [] hooks) :
    EndsIn (fun answer => ∃ records, answer = .ok records ∧ records.length = p.body.count ∧
        (∀ i x, records[i]? = some x → x.totalTime.toNat +
          ((p.body.children i).map (inclusiveTime hooks start stop)).sum = inclusiveTime hooks start stop i) ∧
        (records.map fun x => x.totalTime.toNat).sum = inclusiveTime hooks start stop 0 ∧
        (rootReported hooks = false → inclusiveTime hooks start stop 0 = stop.toNat - start.toNat))
      (Overflow hooks.length (TimedHook.totalRows hooks))
      (recordsAfter ⟨p, m, Tally.new m start⟩ (hooks.map fun hook => hook.rename p.locate) stop) := by
  have hpath : Path p.body (pathOf (rootReported hooks) []) := by
    cases rootReported hooks with
    | true => exact .nil
    | false => exact .root
  have hnew := timed_new hbuild start
  have hrun := (runsAlong_new m start).endsIn_takeAll hnew.within hnew.tracked hnew.size hclock hfollows hpath
  rw [Nat.zero_add, Nat.zero_add] at hrun
  have hwhat := what_lt_count hfollows hpath (fun i hi => by simp at hi)
  have hcall : EndsIn (fun c => ∃ t, c = ⟨p, m, t⟩ ∧
      (Tally.new m start).MeasuredAlong [] start hooks stop 0 0 t) (Overflow hooks.length (TimedHook.totalRows hooks))
      (takeAll ⟨p, m, Tally.new m start⟩ (hooks.map fun hook => hook.rename p.locate)) := by
    rw [takeAll_locate hbuild hwhat]
    exact hrun.map fun t ht => ⟨t, rfl, ht⟩
  refine hcall.bind fun c hc => ?_
  obtain ⟨t, rfl, ht⟩ := hc
  have hwithin := ht.within
  rw [Nat.zero_add, Nat.zero_add] at hwithin
  have hsize : t.size = p.body.count := by
    rw [← Tally.length_sites, ht.sites, Tally.length_sites, hnew.size]
  have htimed : Timed ⟨p, m, t⟩ p stop hooks.length (TimedHook.totalRows hooks) :=
    ⟨rfl, hbuild, hsize, ht.tracked, hwithin⟩
  have hmeasured : measured ⟨p, m, t⟩ stop = inclusiveTime hooks start stop := measured_eq ht
  have hinside := sum_inclusiveTime_le hclock hfollows hpath
  have hroot := inclusive_eq hinside
  have hfit : inclusiveTime hooks start stop 0 < 2 ^ 64 := by
    rw [← hmeasured]
    exact ((htimed.measured_le 0).trans (Nat.sub_le _ _)).trans_lt stop.toNat_lt
  refine (htimed.endsIn_records (by rwa [hmeasured, hroot])).imp (fun answer ha => ?_) fun f hf => hf
  obtain ⟨records, rfl, hown⟩ := ha
  rw [hmeasured] at hown
  refine ⟨records, rfl, hown.length, fun i x hx => ?_, by rw [hown.sum, hroot], fun hnot => if_pos ⟨rfl, hnot⟩⟩
  have hi : i < p.body.preorder.length := by
    rw [length_preorder, ← hown.length]
    exact (List.getElem?_eq_some_iff.1 hx).1
  have hs := List.getElem?_eq_getElem hi
  obtain ⟨y, hy, htime⟩ := hown.own i _ hs
  rw [Nat.zero_add] at hy htime
  obtain rfl : x = y := Option.some.inj (hx.symm.trans hy)
  rw [htime, children_eq hs]
  exact own_add_sum (allFrom_subtree hinside hs)

/-- A block around a loop around two assignments. -/
def loopCopy : Procedure :=
  .compile 0 ⟨1, 1, 1, 0⟩ "loop"
    (.block ⟨none, 1⟩ none
      [.loop ⟨none, 2⟩ .while [.simple ⟨none, 3⟩ .assign none, .simple ⟨none, 4⟩ .assign none]] [])

def loopNumbering : Numbering where
  identity := ⟨1, 1, 1, 0⟩
  index := .lines (.ofList loopCopy.places loopCopy.body.preorder)
  nativeIds := [none, none, none, none]
  lines := [1, 2, 3, 4]
  fingerprints := [none, none, none, none]

/-- Two rounds of the loop, the second of which is not over when the call ends; the block is never reported. -/
def loopHooks : List (TimedHook Nat) :=
  [.begin 1 3, .begin 2 4, .finish 2 6 1 false, .begin 3 6, .finish 3 7 0 false, .begin 2 8]

theorem selfTimes_add_up_loopHooks :
    Numbering.build loopCopy = .ok loopNumbering ∧ FollowsTree loopCopy.body (rootReported loopHooks) [] loopHooks ∧
    EndsIn (fun answer => ∃ records, answer = .ok records ∧ records.length = loopCopy.body.count ∧
        (∀ i x, records[i]? = some x → x.totalTime.toNat +
          ((loopCopy.body.children i).map (inclusiveTime loopHooks 2 12)).sum = inclusiveTime loopHooks 2 12 i) ∧
        (records.map fun x => x.totalTime.toNat).sum = inclusiveTime loopHooks 2 12 0 ∧
        (rootReported loopHooks = false →
          inclusiveTime loopHooks 2 12 0 = (12 : Counter).toNat - (2 : Counter).toNat))
      (Overflow loopHooks.length (TimedHook.totalRows loopHooks))
      (recordsAfter ⟨loopCopy, loopNumbering, Tally.new loopNumbering 2⟩
        (loopHooks.map fun hook => hook.rename loopCopy.locate) 12) ∧
    (List.range 4).map (inclusiveTime loopHooks 2 12) = [10, 9, 6, 1] := by
  have hbuild : Numbering.build loopCopy = .ok loopNumbering := rfl
  have hclock : TimedHook.InOrder 2 loopHooks 12 := by decide
  have hfollows : FollowsTree loopCopy.body (rootReported loopHooks) [] loopHooks := by decide
  exact ⟨hbuild, hfollows, selfTimes_add_up hbuild hclock hfollows, by decide⟩

end Call

end ProcProfile
