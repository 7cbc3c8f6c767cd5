import Mathlib.Tactic
import ProcProfile.Proofs.Tally.Walk

/-!
# Times are conserved

Whatever times a tally holds, the walk over a tree loses none of them and counts none twice: the times that it leaves
in any subtree add up to the inclusive time of the statement at its root, which is measured time where that agrees with
the nesting.  Nothing but the times of compound statements changes.

* `Statement.inclusiveAt`, `Statement.inclusiveAt_rec`: inclusive times by position, from those of the children;
* `Conserved`: a tally before and after the walk;
* `Tally.fold_conserves`: the walk over the tree of a numbered copy conserves the times of every tally.
-/

namespace ProcProfile

namespace Statement

/-- The inclusive time of the statement at position `k` of a tree, from measured times. -/
def inclusiveAt (body : Statement) (T : Nat → Nat) (k : Nat) : Nat := body.preorder[k]?.elim 0 (inclusive T k)

section InclusiveAt

variable {body s : Statement} {T : Nat → Nat} {i k : Nat} {list : List Statement}

theorem inclusiveAt_eq (hs : body.preorder[k]? = some s) : body.inclusiveAt T k = inclusive T k s := by
  rw [inclusiveAt, hs, Option.elim_some]

theorem inclusives_eq_sum_positions (h : ∀ j < counts list, body.preorder[i + j]? = (preorders list)[j]?) :
    inclusives T i list = ((positions i list).map (body.inclusiveAt T)).sum := by
  induction list generalizing i with
  | nil => simp [positions]
  | cons s list ih =>
    rw [counts_cons, preorders_cons] at h
    have hcount := s.count_pos
    have hs : body.preorder[i]? = some s := by
      have hfirst := h 0 (by omega)
      rwa [Nat.add_zero, preorder_eq s, List.cons_append, List.getElem?_cons_zero] at hfirst
    have hrest : ∀ j < counts list, body.preorder[i + s.count + j]? = (preorders list)[j]? := by
      intro j hj
      rw [Nat.add_assoc, h (s.count + j) (by omega), List.getElem?_append_right (by simp)]
      simp
    rw [inclusives_cons, positions, List.map_cons, List.sum_cons, inclusiveAt_eq hs, ih hrest]

/-- What was spent directly inside a statement, child by child. -/
theorem inclusives_nested (hs : body.preorder[k]? = some s) :
    inclusives T (k + 1) s.nested = ((body.children k).map (body.inclusiveAt T)).sum := by
  rw [children_eq hs]
  refine inclusives_eq_sum_positions fun j hj => ?_
  have hcount := s.count_eq
  rw [Nat.add_assoc, Nat.add_comm 1 j, getElem?_preorder_add hs (by omega), preorder_eq, List.getElem?_cons_succ]

/-- The inclusive time of a simple statement is its measured time; that of a compound one is at least its measured time
and at least the inclusive times of its children together. -/
theorem inclusiveAt_rec (hs : body.preorder[k]? = some s) :
    body.inclusiveAt T k =
      if s.isCompound then max (T k) ((body.children k).map (body.inclusiveAt T)).sum else T k := by
  rw [inclusiveAt_eq hs, inclusive_eq_max]
  split_ifs with hcompound
  · rw [inclusives_nested hs]
  · rw [nested_of_simple (by simpa using hcompound), inclusives_nil, Nat.max_zero]

end InclusiveAt

end Statement

open Statement

/-- A tally before and after the times of a tree are settled. -/
structure Conserved (body : Statement) (t t' : Tally) : Prop where
  /-- What runs is kept, and when the call began. -/
  frame : t' = { t with timers := t'.timers }
  size : t'.size = t.size
  simple : ∀ (k : Nat) (s : Statement), body.preorder[k]? = some s → s.isCompound = false → t'.timers[k]? = t.timers[k]?
  /-- A compound statement is left with what was not spent in its children, which is also its longest time if it ran
  once. -/
  compound : ∀ (k : Nat) (s : Statement) (timer : Timer), body.preorder[k]? = some s → s.isCompound = true → t.timers[k]? = some timer →
    ∃ own : Counter,
      own.toNat + ((body.children k).map (body.inclusiveAt t.elapsed)).sum = body.inclusiveAt t.elapsed k ∧
      t'.timers[k]? = some { timer with elapsed := own, maxElapsed := if timer.execCount = 1 then own else 0 }
  others : ∀ k : Nat, body.count ≤ k → t'.timers[k]? = t.timers[k]?
  /-- The times of a subtree add up to the inclusive time of its root. -/
  subtree : ∀ (k : Nat) (s : Statement), body.preorder[k]? = some s →
    ∑ j ∈ Finset.Ico k (k + s.count), t'.elapsed j = body.inclusiveAt t.elapsed k

theorem SelfTime.Settled.conserved {body : Statement} {t t' : Tally} (h : SelfTime.Settled t 0 [body] t') :
    Conserved body t t' := by
  have hat : ∀ k s, body.preorder[k]? = some s → SelfTime.SettledAt t k s t' := fun k s hs => by
    simpa using h.settled k s (by simpa using hs)
  refine ⟨h.frame, h.size, fun k s hs hsimple => ?_, fun k s timer hs hcompound htimer => ?_, fun k hk => ?_,
    fun k s hs => ?_⟩
  · have hsettled := hat k s hs
    rwa [SelfTime.SettledAt, if_neg (by simp [hsimple])] at hsettled
  · have hsettled := hat k s hs
    rw [SelfTime.SettledAt, if_pos hcompound] at hsettled
    obtain ⟨nested, hnested, hleft⟩ := hsettled
    refine ⟨Counter.since timer.elapsed nested, ?_, by rw [hleft, htimer]; rfl⟩
    have helapsed : t.elapsed k = timer.elapsed.toNat := by rw [Tally.elapsed, htimer, Option.elim_some]
    rw [inclusives_nested hs] at hnested
    rw [inclusiveAt_rec hs, if_pos hcompound, Counter.toNat_since, ← hnested, helapsed]
    omega
  · exact h.others k (.inr (by simpa using hk))
  · have hown : AllFrom (fun k s => t'.elapsed k = Statement.own t.elapsed k s) 0 body.preorder := by
      simpa using h.own
    rw [inclusiveAt_eq hs]
    exact sum_own (allFrom_subtree hown hs)

/-- **Times are conserved.**  For every numbered copy and every tally, whatever its times and counts are, the walk gives
the inclusive time of the root and leaves own times, unless that inclusive time is too large for a counter. -/
theorem Tally.fold_conserves {p : Procedure} {m : Numbering} (hbuild : Numbering.build p = .ok m) (t : Tally) :
    (∀ k s, p.body.preorder[k]? = some s → p.body.inclusiveAt t.elapsed k =
      if s.isCompound then max (t.elapsed k) ((p.body.children k).map (p.body.inclusiveAt t.elapsed)).sum
      else t.elapsed k) ∧
    EndsIn
      (fun out => ∃ total : Counter, out.1 = .ok total ∧ total.toNat = p.body.inclusiveAt t.elapsed 0 ∧
        Conserved p.body t out.2)
      (fun f => f = .addOverflow ∧ 2 ^ 64 ≤ p.body.inclusiveAt t.elapsed 0) (t.fold m p) := by
  have hroot : p.body.preorder[0]? = some p.body := by rw [preorder_eq, List.getElem?_cons_zero]
  refine ⟨fun k s hs => inclusiveAt_rec hs, ?_⟩
  rw [inclusiveAt_eq hroot]
  refine (t.fold_settles hbuild).imp (fun out hout => ?_) fun f hf => hf
  obtain ⟨v, hv, hvalue, hsettled⟩ := hout
  exact ⟨v, hv, hvalue, hsettled.conserved⟩

/-- A block with a loop and a handler. -/
def loopAndHandler : Procedure :=
  .compile 3 ⟨1, 1, 1, 0⟩ "f" <|
    .block ⟨some 8, 1⟩ none [.loop ⟨some 2, 2⟩ .while [.simple ⟨some 5, 3⟩ .assign none]]
      [[.simple ⟨some 1, 5⟩ .raise none]]

/-- Times that contradict the nesting: less was measured for the block and for the loop than inside them. -/
def crossedTimes : Tally where
  timers := #[⟨1, none, 5, 5, 0, 1, 0, some 2⟩, ⟨2, none, 2, 2, 9, 3, 0, none⟩, ⟨3, none, 7, 7, 9, 1, 0, none⟩,
    ⟨5, none, 4, 4, 0, 1, 1, none⟩]
  stack := [0]
  untracked := 0
  startedAt := 1

theorem Tally.fold_conserves_crossedTimes :
    ∃ m, Numbering.build loopAndHandler = .ok m ∧
      (∀ k s, loopAndHandler.body.preorder[k]? = some s → loopAndHandler.body.inclusiveAt crossedTimes.elapsed k =
        if s.isCompound then max (crossedTimes.elapsed k)
          ((loopAndHandler.body.children k).map (loopAndHandler.body.inclusiveAt crossedTimes.elapsed)).sum
        else crossedTimes.elapsed k) ∧
      EndsIn
        (fun out => ∃ total : Counter, out.1 = .ok total ∧
          total.toNat = loopAndHandler.body.inclusiveAt crossedTimes.elapsed 0 ∧
          Conserved loopAndHandler.body crossedTimes out.2)
        (fun f => f = .addOverflow ∧ 2 ^ 64 ≤ loopAndHandler.body.inclusiveAt crossedTimes.elapsed 0)
        (crossedTimes.fold m loopAndHandler) := by
  have hbuilt : (Numbering.build loopAndHandler).toOption.map Numbering.size = some 4 := by cbv
  cases hbuild : Numbering.build loopAndHandler with
  | error stop => simp [hbuild, Except.toOption] at hbuilt
  | ok m => exact ⟨m, rfl, Tally.fold_conserves hbuild crossedTimes⟩

end ProcProfile
