import Mathlib.Data.List.Perm.Basic
import Mathlib.Tactic
import ProcProfile.Proofs.Reading.Steps

/-!
# Which steps a walk takes, and when

The steps of a tree are the steps of its statements, each statement with the branches and sums of its own arms.  The
statements are read in pre-order; a sum is due when the last statement of its arms was read.

* `Spot.filterMap_steps`: the statements that are read, in their order;
* `Spot.closings`, `Spot.steps_perm`: the steps of a tree, statement by statement;
* `Step.Paced`, `Spot.paced_steps`: at each step, how many statements were read before it;
* `Spot.sum_mem_steps`: the sums of a tree.
-/

namespace ProcProfile

open Statement

/-- The statement that a step reads. -/
def Step.spot? : Step → Option Spot
  | .read c => some c
  | .branch _ | .sum .. => none

theorem ArmSpot.filterMap_closing (a : ArmSpot) : a.closing.filterMap Step.spot? = [] := by
  unfold closing
  split <;> rfl

theorem Statement.filterMap_closing (outer : Nat) (s : Statement) :
    (s.closing outer).filterMap Step.spot? = [] := by
  unfold closing
  split <;> rfl

namespace Spot

/-- The statements are read in pre-order. -/
theorem filterMap_steps (c : Spot) : c.steps.filterMap Step.spot? = c.all := by
  induction c using inner_induction with
  | step c ih =>
    have harms : (c.arms.flatMap ArmSpot.steps).filterMap Step.spot? = c.inner.flatMap all := by
      rw [List.filterMap_flatMap, inner, List.flatMap_assoc]
      refine List.flatMap_congr fun a ha => ?_
      rw [ArmSpot.steps, List.filterMap_append, a.filterMap_closing, List.append_nil, List.filterMap_flatMap]
      exact List.flatMap_congr fun d hd => ih d (mem_inner.2 ⟨a, ha, hd⟩)
    rw [steps_eq, List.filterMap_append, List.filterMap_append, harms, Statement.filterMap_closing, List.append_nil,
      all_eq]
    rfl

/-! ### Statement by statement -/

/-- The steps of a statement that are due inside it and after it. -/
def closings (c : Spot) : List Step := c.arms.flatMap ArmSpot.closing ++ c.statement.closing c.index

/-- The steps of a tree are those of its statements. -/
theorem steps_perm (c : Spot) : c.steps.Perm (c.all.flatMap fun d => .read d :: d.closings) := by
  induction c using inner_induction with
  | step c ih =>
    have hspots : (c.arms.flatMap fun a => a.spots.flatMap steps).Perm
        ((c.inner.flatMap all).flatMap fun d => .read d :: d.closings) := by
      rw [inner, List.flatMap_assoc, List.flatMap_assoc]
      refine List.Perm.flatMap_left _ fun a ha => ?_
      exact List.Perm.flatMap_left _ fun d hd => ih d (mem_inner.2 ⟨a, ha, hd⟩)
    have harms : (c.arms.flatMap ArmSpot.steps).Perm
        (c.arms.flatMap ArmSpot.closing ++ (c.inner.flatMap all).flatMap fun d => .read d :: d.closings) :=
      ((List.flatMap_append_perm _ _ _).symm.trans (hspots.append_right _)).trans List.perm_append_comm
    rw [steps_eq, all_eq, List.flatMap_cons, List.singleton_append, List.cons_append]
    refine List.Perm.cons _ ((harms.append_right _).trans ?_)
    rw [closings, List.append_assoc, List.append_assoc]
    exact List.Perm.append_left _ List.perm_append_comm

theorem mem_steps {c : Spot} {step : Step} :
    step ∈ c.steps ↔ ∃ d ∈ c.all, step = .read d ∨ step ∈ d.closings := by
  rw [(steps_perm c).mem_iff, List.mem_flatMap]
  simp only [List.mem_cons]

end Spot

/-! ### When a step is due -/

/-- Every statement is read at its position, and every sum is made at the end of its arms. -/
def Step.Paced : Nat → List Step → Prop
  | _, [] => True
  | i, .read c :: steps => c.index = i ∧ Paced (i + 1) steps
  | i, .branch _ :: steps => Paced i steps
  | i, .sum outer taken :: steps => outer + 1 + counts taken.flatten = i ∧ Paced i steps

theorem Step.paced_append {i : Nat} {front back : List Step} :
    Paced i (front ++ back) ↔ Paced i front ∧ Paced (i + (front.filterMap spot?).length) back := by
  induction front generalizing i with
  | nil => simp [Paced]
  | cons step front ih =>
    cases step with
    | read c => simp [Paced, ih, spot?, and_assoc, Nat.add_assoc, Nat.add_comm 1]
    | branch b => simp [Paced, ih, spot?, List.filterMap_cons]
    | sum outer taken => simp [Paced, ih, spot?, List.filterMap_cons, and_assoc]

/-- No sum is made before it is due. -/
theorem Step.Paced.le_sum {i : Nat} {steps : List Step} (h : Paced i steps) {outer : Nat}
    {taken : List (List Statement)} (hsum : .sum outer taken ∈ steps) : i ≤ outer + 1 + counts taken.flatten := by
  obtain ⟨front, back, rfl⟩ := List.append_of_mem hsum
  have hdue := (paced_append.1 h).2.1
  omega

namespace Spot

theorem length_all (c : Spot) : c.all.length = c.statement.count := by
  rw [← List.length_map index, map_index_all, List.length_range']

/-- Trees that stand one after another are read so. -/
theorem length_filterMap_flatMap_steps (spots : List Spot) :
    ((spots.flatMap steps).filterMap Step.spot?).length = counts (spots.map statement) := by
  rw [List.filterMap_flatMap, List.length_flatMap, counts, List.map_map]
  congr 1
  refine List.map_congr_left fun d _ => ?_
  rw [filterMap_steps, length_all]
  rfl

theorem paced_flatMap_steps {i : Nat} {spots : List Spot} (h : ∀ d ∈ spots, Step.Paced d.index d.steps)
    (hspots : spots.map index = positions i (spots.map statement)) : Step.Paced i (spots.flatMap steps) := by
  induction spots generalizing i with
  | nil => trivial
  | cons d spots ih =>
    rw [List.map_cons, List.map_cons, positions, List.cons.injEq] at hspots
    rw [List.flatMap_cons, Step.paced_append, filterMap_steps, length_all, ← hspots.1]
    refine ⟨h d List.mem_cons_self, ih (fun e he => h e (List.mem_cons_of_mem _ he)) ?_⟩
    rw [hspots.1, hspots.2]

end Spot

/-- The sum after an arm is due at its end. -/
theorem ArmSpot.paced_closing (a : ArmSpot) (hstart : a.start = a.outer + 1 + counts a.before.flatten) :
    Step.Paced (a.start + counts a.list) a.closing := by
  unfold closing
  split
  · trivial
  · trivial
  · simp [Step.Paced, hstart, Nat.add_assoc]
  · trivial

theorem paced_armSpots {outer i : Nat} {before : List (List Statement)} {arms : List (Arm × List Statement)}
    (hi : i = outer + 1 + counts before.flatten)
    (h : ∀ a ∈ armSpots outer i before arms, ∀ d ∈ a.spots, Step.Paced d.index d.steps) :
    Step.Paced i ((armSpots outer i before arms).flatMap ArmSpot.steps) := by
  induction arms generalizing i before with
  | nil => trivial
  | cons arm arms ih =>
    rw [armSpots] at h ⊢
    have hspots : Step.Paced i _ := Spot.paced_flatMap_steps (h _ List.mem_cons_self) (by simp [ArmSpot.spots])
    have hrest := ih (by simp [hi, Nat.add_assoc]) fun a ha => h a (List.mem_cons_of_mem _ ha)
    rw [List.flatMap_cons, ArmSpot.steps, Step.paced_append, Step.paced_append, List.filterMap_append,
      ArmSpot.filterMap_closing, List.append_nil, Spot.length_filterMap_flatMap_steps]
    simp only [ArmSpot.spots, map_statement_listSpots]
    exact ⟨⟨hspots, ArmSpot.paced_closing ⟨outer, arm.1, i, arm.2, before⟩ hi⟩, hrest⟩

namespace Spot

/-- Every step of a tree comes when it is due. -/
theorem paced_steps (c : Spot) : Step.Paced c.index c.steps := by
  induction c using inner_induction with
  | step c ih =>
    have harms : Step.Paced (c.index + 1) (c.arms.flatMap ArmSpot.steps) :=
      paced_armSpots (by simp) fun a ha d hd => ih d (mem_inner.2 ⟨a, ha, hd⟩)
    have hclosing : ∀ i, Step.Paced i (c.statement.closing c.index) := by
      intro i
      unfold Statement.closing
      split <;> trivial
    rw [steps_eq, Step.paced_append, Step.paced_append]
    exact ⟨⟨rfl, trivial⟩, harms, hclosing _⟩

end Spot

/-! ### Sums -/

section Sums

variable {outer o i number : Nat} {before taken : List (List Statement)}

theorem ArmSpot.sum_mem_closing {a : ArmSpot} :
    .sum o taken ∈ a.closing ↔ (∃ n, a.arm = .elsif n) ∧ o = a.outer ∧ taken = a.before ++ [a.list] := by
  unfold closing
  split <;> simp_all

theorem Statement.sum_not_mem_closing (s : Statement) : .sum o taken ∉ s.closing outer := by
  unfold closing
  split <;> simp

/-- Only ELSIF arms are summed up. -/
theorem sum_not_mem_armSpots {arms : List (Arm × List Statement)} (h : ∀ n, .elsif n ∉ arms.map Prod.fst) :
    .sum o taken ∉ (armSpots outer i before arms).flatMap ArmSpot.closing := by
  intro hmem
  obtain ⟨a, ha, hclosing⟩ := List.mem_flatMap.1 hmem
  obtain ⟨⟨n, harm⟩, -⟩ := ArmSpot.sum_mem_closing.1 hclosing
  refine h n ?_
  rw [← map_arm_armSpots, ← harm]
  exact List.mem_map_of_mem ha

/-- After each ELSIF arm, the arms up to it are summed up. -/
theorem sum_mem_elsifs {lists : List (List Statement)} :
    .sum o taken ∈ (armSpots outer i before (numberedFrom .elsif number lists)).flatMap ArmSpot.closing ↔
      o = outer ∧ ∃ n < lists.length, taken = before ++ lists.take (n + 1) := by
  induction lists generalizing i number before with
  | nil => simp [numberedFrom, armSpots]
  | cons list lists ih =>
    rw [numberedFrom_cons, armSpots, List.flatMap_cons, List.mem_append, ih, ArmSpot.sum_mem_closing]
    constructor
    · rintro (⟨-, ho, htaken⟩ | ⟨ho, n, hn, htaken⟩)
      · exact ⟨ho, 0, by simp, htaken⟩
      · exact ⟨ho, n + 1, by simpa using hn, by simpa using htaken⟩
    · rintro ⟨ho, n, hn, htaken⟩
      cases n with
      | zero => exact .inl ⟨⟨number, rfl⟩, ho, htaken⟩
      | succ n => exact .inr ⟨ho, n, by simpa using hn, by simpa using htaken⟩

/-- The sums of a statement: those of the THEN arm and the first ELSIF arms of an IF. -/
theorem Spot.sum_mem_closings {c : Spot} :
    .sum o taken ∈ c.closings ↔ o = c.index ∧ ∃ site thenBody elsifs elseBody,
      c.statement = .cond site thenBody elsifs elseBody ∧
        ∃ n < elsifs.length, taken = thenBody :: elsifs.take (n + 1) := by
  rw [closings, List.mem_append, or_iff_left (sum_not_mem_closing _), arms]
  cases hs : c.statement with
  | cond site thenBody elsifs elseBody =>
    rw [Statement.arms, armSpots, List.flatMap_cons, armSpots_append, List.flatMap_append, List.mem_append,
      List.mem_append, ArmSpot.sum_mem_closing]
    have helsifs : .sum o taken ∈ (armSpots c.index (c.index + 1 + counts thenBody) [thenBody]
        (numbered .elsif elsifs)).flatMap ArmSpot.closing ↔ _ := sum_mem_elsifs
    constructor
    · rintro (⟨⟨n, harm⟩, -⟩ | hmem | hmem)
      · cases harm
      · obtain ⟨ho, n, hn, htaken⟩ := helsifs.1 hmem
        exact ⟨ho, site, thenBody, elsifs, elseBody, rfl, n, hn, htaken⟩
      · exact absurd hmem (sum_not_mem_armSpots (by cases elseBody <;> simp))
    · rintro ⟨ho, _, _, _, _, hcond, n, hn, htaken⟩
      cases hcond
      exact .inr (.inl (helsifs.2 ⟨ho, n, hn, htaken⟩))
  | block site label body handlers =>
    refine iff_of_false (sum_not_mem_armSpots ?_) (by simp)
    simp [Statement.arms, map_fst_numbered]
  | choice site whens elseBody =>
    refine iff_of_false (sum_not_mem_armSpots ?_) (by simp)
    cases elseBody <;> simp [Statement.arms, map_fst_numbered]
  | loop site kind body =>
    refine iff_of_false (sum_not_mem_armSpots ?_) (by simp)
    simp [Statement.arms]
  | simple site kind fingerprint =>
    refine iff_of_false (sum_not_mem_armSpots ?_) (by simp)
    simp [Statement.arms]

end Sums

/-- The sums of a whole tree. -/
theorem Spot.sum_mem_steps {body : Statement} {o : Nat} {taken : List (List Statement)} :
    .sum o taken ∈ (root body).steps ↔ ∃ site thenBody elsifs elseBody,
      body.preorder[o]? = some (.cond site thenBody elsifs elseBody) ∧
        ∃ n < elsifs.length, taken = thenBody :: elsifs.take (n + 1) := by
  rw [mem_steps]
  constructor
  · rintro ⟨d, hd, hread | hmem⟩
    · cases hread
    · obtain ⟨rfl, site, thenBody, elsifs, elseBody, hs, hn⟩ := sum_mem_closings.1 hmem
      exact ⟨site, thenBody, elsifs, elseBody, hs ▸ getElem?_preorder_of_mem hd, hn⟩
  · rintro ⟨site, thenBody, elsifs, elseBody, hs, hn⟩
    obtain ⟨d, hd, rfl, hstatement⟩ := exists_of_preorder hs
    exact ⟨d, hd, .inr (sum_mem_closings.2 ⟨rfl, site, thenBody, elsifs, elseBody, hstatement, hn⟩)⟩

end ProcProfile
