import Mathlib.Algebra.BigOperators.Intervals
import Mathlib.Tactic
import ProcProfile.Proofs.Statement

/-!
# Inclusive times and self times

Measured times may contradict the nesting of statements.  The inclusive time of a statement is at least its
measured time and at least what was spent directly inside it; its own time is what remains of its inclusive
time.  So the own times in a tree always add up to the inclusive time of its root.

* `Statement.inclusive`, `Statement.own`: both, by position in the tree;
* `Statement.sum_own`: the own times in a tree add up to the inclusive time of its root;
* `Statement.inclusive_eq`: measured times that agree with the nesting are inclusive;
* `Statement.inclusive_add_le`: time that passes for nested statements is time of the root once.
-/

namespace ProcProfile

namespace Statement

mutual

/-- The inclusive time of the statement at position `i`, from measured times. -/
def inclusive (T : Nat → Nat) (i : Nat) (s : Statement) : Nat :=
  max (T i) (inclusives T (i + 1) s.nested)
termination_by 2 * s.count
decreasing_by
  have := s.count_eq
  omega

/-- The inclusive times of a list of statements, the first of which is at position `i`, in one sum. -/
def inclusives (T : Nat → Nat) (i : Nat) (list : List Statement) : Nat :=
  match list with
  | [] => 0
  | s :: list => inclusive T i s + inclusives T (i + s.count) list
termination_by 2 * counts list + 1
decreasing_by
  all_goals
    have := s.count_pos
    rw [counts_cons]
    omega

end

/-- The time spent in the statement at position `i` and not in a statement inside it. -/
def own (T : Nat → Nat) (i : Nat) (s : Statement) : Nat :=
  inclusive T i s - inclusives T (i + 1) s.nested

section Inclusive

variable {T T' : Nat → Nat} {i : Nat} {s : Statement} {list list' : List Statement}

@[simp] theorem inclusives_nil : inclusives T i [] = 0 := by rw [inclusives]

@[simp] theorem inclusives_cons :
    inclusives T i (s :: list) = inclusive T i s + inclusives T (i + s.count) list := by
  rw [inclusives]

theorem inclusive_eq_max : inclusive T i s = max (T i) (inclusives T (i + 1) s.nested) := by rw [inclusive]

theorem inclusives_append :
    inclusives T i (list ++ list') = inclusives T i list + inclusives T (i + counts list) list' := by
  induction list generalizing i with
  | nil => simp
  | cons s list ih =>
    rw [List.cons_append, inclusives_cons, inclusives_cons, ih, counts_cons]
    ac_rfl

theorem own_add : own T i s + inclusives T (i + 1) s.nested = inclusive T i s := by
  rw [own, inclusive_eq_max]
  omega

theorem own_eq_sub : own T i s = T i - inclusives T (i + 1) s.nested := by
  rw [own, inclusive_eq_max]
  omega

theorem inclusives_congr_list
    (h : ∀ s ∈ list, ∀ i, (∀ k, i ≤ k → k < i + s.count → T' k = T k) → inclusive T' i s = inclusive T i s)
    (hT : ∀ k, i ≤ k → k < i + counts list → T' k = T k) : inclusives T' i list = inclusives T i list := by
  induction list generalizing i with
  | nil => simp
  | cons s list ih =>
    rw [counts_cons] at hT
    rw [inclusives_cons, inclusives_cons, h s (by simp) i fun k hk hk' => hT k hk (by omega),
      ih (fun c hc => h c (by simp [hc])) fun k hk hk' => hT k (by omega) (by omega)]

/-- Inclusive times depend on the measured times in the tree only. -/
theorem inclusive_congr (hT : ∀ k, i ≤ k → k < i + s.count → T' k = T k) :
    inclusive T' i s = inclusive T i s := by
  induction s using nested_induction generalizing i with
  | step s ih =>
    have hcount := s.count_eq
    rw [inclusive_eq_max, inclusive_eq_max, hT i le_rfl (by omega),
      inclusives_congr_list (fun c hc i => ih c hc) fun k hk hk' => hT k (by omega) (by omega)]

theorem inclusives_congr (hT : ∀ k, i ≤ k → k < i + counts list → T' k = T k) :
    inclusives T' i list = inclusives T i list :=
  inclusives_congr_list (fun _ _ _ => inclusive_congr) hT

/-! ### Own times add up -/

theorem sum_own_list {f : Nat → Nat}
    (h : ∀ s ∈ list, ∀ i, AllFrom (fun k c => f k = own T k c) i s.preorder →
      ∑ k ∈ Finset.Ico i (i + s.count), f k = inclusive T i s)
    (hf : AllFrom (fun k c => f k = own T k c) i (preorders list)) :
    ∑ k ∈ Finset.Ico i (i + counts list), f k = inclusives T i list := by
  induction list generalizing i with
  | nil => simp
  | cons s list ih =>
    rw [allFrom_preorders_cons] at hf
    rw [inclusives_cons, ← h s (by simp) i hf.1, ← ih (fun c hc => h c (by simp [hc])) hf.2, counts_cons,
      ← Nat.add_assoc, Finset.sum_Ico_consecutive f (by omega) (by omega)]

/-- The own times in a tree add up to the inclusive time of its root. -/
theorem sum_own {f : Nat → Nat} (hf : AllFrom (fun k c => f k = own T k c) i s.preorder) :
    ∑ k ∈ Finset.Ico i (i + s.count), f k = inclusive T i s := by
  induction s using nested_induction generalizing i with
  | step s ih =>
    obtain ⟨hroot, hnested⟩ := allFrom_preorder.1 hf
    have hsum := sum_own_list (fun c hc i => ih c hc) hnested
    rw [Finset.sum_eq_sum_Ico_succ_bot (by have := s.count_pos; omega), hroot, s.count_eq, ← own_add,
      Nat.add_comm (counts s.nested) 1, ← Nat.add_assoc, hsum]

/-! ### Times that agree with the nesting -/

theorem inclusives_eq_list
    (h : ∀ s ∈ list, ∀ i, AllFrom (fun k c => ((positions (k + 1) c.nested).map T).sum ≤ T k) i s.preorder →
      inclusive T i s = T i)
    (hT : AllFrom (fun k c => ((positions (k + 1) c.nested).map T).sum ≤ T k) i (preorders list)) :
    inclusives T i list = ((positions i list).map T).sum := by
  induction list generalizing i with
  | nil => simp [positions]
  | cons s list ih =>
    rw [allFrom_preorders_cons] at hT
    rw [inclusives_cons, positions, List.map_cons, List.sum_cons, h s (by simp) i hT.1,
      ih (fun c hc => h c (by simp [hc])) hT.2]

/-- If no less time was measured for a statement than for those directly inside it together, measured times are
inclusive. -/
theorem inclusive_eq (hT : AllFrom (fun k c => ((positions (k + 1) c.nested).map T).sum ≤ T k) i s.preorder) :
    inclusive T i s = T i := by
  induction s using nested_induction generalizing i with
  | step s ih =>
    obtain ⟨hroot, hnested⟩ := allFrom_preorder.1 hT
    rw [inclusive_eq_max, inclusives_eq_list (fun c hc i => ih c hc) hnested]
    exact max_eq_left hroot

/-- Then what remains of the time of a statement was not spent in those directly inside it. -/
theorem own_add_sum (hT : AllFrom (fun k c => ((positions (k + 1) c.nested).map T).sum ≤ T k) i s.preorder) :
    own T i s + ((positions (i + 1) s.nested).map T).sum = T i := by
  have hnested := inclusives_eq_list (fun _ _ _ => inclusive_eq) (allFrom_preorder.1 hT).2
  rw [← inclusive_eq hT, ← own_add, hnested]

/-! ### Time that passes -/

/-- The positions with `R` in a tree are nested in each other: none is past the end of another. -/
def NestedIn (R : Nat → Prop) (i : Nat) (list : List Statement) : Prop :=
  AllFrom (fun k c => R k → ∀ j, R j → j < k + c.count) i list

section Passing

variable {R : Nat → Prop} [DecidablePred R] {d : Nat}

theorem inclusives_add_le_list
    (h : ∀ s ∈ list, ∀ i, NestedIn R i s.preorder →
      inclusive (fun k => T k + if R k then d else 0) i s ≤ inclusive T i s + d)
    (hR : NestedIn R i (preorders list)) :
    inclusives (fun k => T k + if R k then d else 0) i list ≤ inclusives T i list + d := by
  induction list generalizing i with
  | nil => simp
  | cons s list ih =>
    obtain ⟨hhead, htail⟩ := allFrom_preorders_cons.1 hR
    rw [inclusives_cons, inclusives_cons]
    by_cases hmeets : ∃ k, R k ∧ i ≤ k ∧ k < i + s.count
    · -- the first tree takes part, so that none of the others does
      obtain ⟨k, hk, hik, hki⟩ := hmeets
      obtain ⟨j, rfl⟩ := Nat.exists_eq_add_of_le hik
      have hlt : j < s.preorder.length := by rw [length_preorder]; omega
      have hend := allFrom_end i s j _ (List.getElem?_eq_getElem hlt)
      have hinside := hhead j _ (List.getElem?_eq_getElem hlt) hk
      have hsame : inclusives (fun k => T k + if R k then d else 0) (i + s.count) list =
          inclusives T (i + s.count) list := by
        refine inclusives_congr fun k' hk' _ => ?_
        have hnot : ¬ R k' := fun hR' => by
          have := hinside k' hR'
          omega
        simp [hnot]
      have := h s (by simp) i hhead
      omega
    · have hsame : inclusive (fun k => T k + if R k then d else 0) i s = inclusive T i s := by
        refine inclusive_congr fun k hk hk' => ?_
        have hnot : ¬ R k := fun hR' => hmeets ⟨k, hR', hk, hk'⟩
        simp [hnot]
      have := ih (fun c hc => h c (by simp [hc])) htail
      omega

/-- Time that passes for statements nested in each other is time of the root once. -/
theorem inclusive_add_le (hR : NestedIn R i s.preorder) :
    inclusive (fun k => T k + if R k then d else 0) i s ≤ inclusive T i s + d := by
  induction s using nested_induction generalizing i with
  | step s ih =>
    obtain ⟨hroot, hnested⟩ := allFrom_preorder.1 hR
    have := inclusives_add_le_list (fun c hc i => ih c hc) hnested
    rw [inclusive_eq_max, inclusive_eq_max]
    split_ifs <;> omega

end Passing

end Inclusive

end Statement

end ProcProfile
