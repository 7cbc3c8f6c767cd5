import Mathlib.Data.List.Nodup
import Mathlib.Tactic
import Std.Data.String.ToNat
import ProcProfile.Proofs.Statement
import ProcProfile.Reading

/-!
# Where the statements of a tree stand

A statement of a tree is told apart from all others by its position in pre-order.  The same place can be
described from the outside: by the statement that it is directly in, the arm of that statement, and the number
that it has in the arm.

* `Spot`, `ArmSpot`: a statement and an arm, each with its place;
* `Spot.inner`, `Spot.all`: the spots directly inside a spot, and all of them in pre-order;
* `Spot.map_statement_all`, `Spot.map_index_all`: these are the statements of the tree, at the positions that
  follow each other;
* `Statement.nodup_labels`: the arms of a statement have different labels;
* `Statement.follow`: the way from a statement to one directly inside it, by label and number;
* `Spot.follow_of_mem_inner`: each spot is found on the way that it names.
-/

namespace ProcProfile

open Statement

/-- A statement with its place in a tree: its position in pre-order, the statement and the arm that it is
directly in, and its number there, from 1. -/
structure Spot where
  index : Nat
  parent : Option Enclosing
  position : Nat
  statement : Statement

/-- An arm with its place in a tree: the position of the statement whose arm it is, the position at which its
list starts, and the lists of the arms before it. -/
structure ArmSpot where
  outer : Nat
  arm : Arm
  start : Nat
  list : List Statement
  before : List (List Statement)

/-- The statements of a list, of which the first is at position `i` and has the number `position`. -/
def listSpots (i : Nat) (parent : Enclosing) (position : Nat) : List Statement → List Spot
  | [] => []
  | s :: list => ⟨i, some parent, position, s⟩ :: listSpots (i + s.count) parent (position + 1) list

/-- Arms of the statement at position `outer`, of which the first starts at position `i`. -/
def armSpots (outer i : Nat) (before : List (List Statement)) : List (Arm × List Statement) → List ArmSpot
  | [] => []
  | a :: rest => ⟨outer, a.1, i, a.2, before⟩ :: armSpots outer (i + counts a.2) (before ++ [a.2]) rest

/-- The statements in an arm. -/
def ArmSpot.spots (a : ArmSpot) : List Spot := listSpots a.start ⟨a.outer, a.arm⟩ 1 a.list

namespace Statement

theorem positions_append (i : Nat) (list list' : List Statement) :
    positions i (list ++ list') = positions i list ++ positions (i + counts list) list' := by
  induction list generalizing i with
  | nil => simp [positions]
  | cons s list ih => simp [positions, ih, Nat.add_assoc]

/-- Arms with numbers from `number` on. -/
def numberedFrom (arm : Nat → Arm) (number : Nat) (lists : List (List Statement)) : List (Arm × List Statement) :=
  lists.mapIdx fun i list => (arm (i + number), list)

theorem numberedFrom_cons (arm : Nat → Arm) (number : Nat) (list : List Statement) (lists : List (List Statement)) :
    numberedFrom arm number (list :: lists) = (arm number, list) :: numberedFrom arm (number + 1) lists := by
  simp [numberedFrom, Nat.add_assoc, Nat.add_comm 1 number]

end Statement

section Lists

variable {i position : Nat} {parent : Enclosing} {list : List Statement}

@[simp] theorem map_statement_listSpots : (listSpots i parent position list).map Spot.statement = list := by
  induction list generalizing i position with
  | nil => rfl
  | cons s list ih => simp [listSpots, ih]

@[simp] theorem map_index_listSpots : (listSpots i parent position list).map Spot.index = positions i list := by
  induction list generalizing i position with
  | nil => rfl
  | cons s list ih => simp [listSpots, positions, ih]

/-- A spot of a list is at the place that its number says. -/
theorem of_mem_listSpots {d : Spot} (h : d ∈ listSpots i parent position list) :
    d.parent = some parent ∧
      ∃ n, d.position = position + n ∧ (positions i list)[n]? = some d.index ∧ list[n]? = some d.statement := by
  induction list generalizing i position with
  | nil => cases h
  | cons s list ih =>
    rcases List.mem_cons.1 h with rfl | h
    · exact ⟨rfl, 0, rfl, rfl, rfl⟩
    · obtain ⟨hparent, n, hn, hindex, hs⟩ := ih h
      exact ⟨hparent, n + 1, by omega, by simpa [positions] using hindex, by simpa using hs⟩

end Lists

section Arms

variable {outer i : Nat} {before : List (List Statement)} {arms : List (Arm × List Statement)}

theorem armSpots_singleton (a : Arm × List Statement) :
    armSpots outer i before [a] = [⟨outer, a.1, i, a.2, before⟩] := rfl

theorem armSpots_append (arms' : List (Arm × List Statement)) :
    armSpots outer i before (arms ++ arms') = armSpots outer i before arms ++
      armSpots outer (i + counts (arms.flatMap Prod.snd)) (before ++ arms.map Prod.snd) arms' := by
  induction arms generalizing i before with
  | nil => simp [armSpots]
  | cons a rest ih => simp [armSpots, ih, Nat.add_assoc]

theorem map_arm_armSpots : (armSpots outer i before arms).map ArmSpot.arm = arms.map Prod.fst := by
  induction arms generalizing i before with
  | nil => rfl
  | cons a rest ih => simp [armSpots, ih]

theorem outer_of_mem_armSpots {a : ArmSpot} (h : a ∈ armSpots outer i before arms) : a.outer = outer := by
  induction arms generalizing i before with
  | nil => cases h
  | cons b rest ih =>
    rcases List.mem_cons.1 h with rfl | h
    · rfl
    · exact ih h

theorem map_statement_armSpots :
    ((armSpots outer i before arms).flatMap ArmSpot.spots).map Spot.statement = arms.flatMap Prod.snd := by
  induction arms generalizing i before with
  | nil => rfl
  | cons a rest ih => simp [armSpots, ArmSpot.spots, ih]

theorem map_index_armSpots :
    ((armSpots outer i before arms).flatMap ArmSpot.spots).map Spot.index =
      positions i (arms.flatMap Prod.snd) := by
  induction arms generalizing i before with
  | nil => rfl
  | cons a rest ih => simp [armSpots, ArmSpot.spots, ih, positions_append]

end Arms

namespace Spot

/-- The arms of the statement at a spot. -/
def arms (c : Spot) : List ArmSpot := armSpots c.index (c.index + 1) [] c.statement.arms

/-- The spots directly inside a spot, arm after arm. -/
def inner (c : Spot) : List Spot := c.arms.flatMap ArmSpot.spots

theorem map_statement_inner (c : Spot) : c.inner.map statement = c.statement.nested := map_statement_armSpots

theorem map_index_inner (c : Spot) : c.inner.map index = positions (c.index + 1) c.statement.nested :=
  map_index_armSpots

theorem mem_inner {c d : Spot} : d ∈ c.inner ↔ ∃ a ∈ c.arms, d ∈ a.spots := List.mem_flatMap

theorem count_lt_of_mem_inner {c d : Spot} (h : d ∈ c.inner) : d.statement.count < c.statement.count := by
  have hmem : d.statement ∈ c.statement.nested := c.map_statement_inner ▸ List.mem_map_of_mem h
  have := count_le_counts hmem
  have := c.statement.count_eq
  omega

/-- What holds of a spot if it holds of all spots directly inside it, holds of every spot. -/
@[elab_as_elim] theorem inner_induction {motive : Spot → Prop}
    (step : ∀ c, (∀ d ∈ c.inner, motive d) → motive c) (c : Spot) : motive c := by
  induction hn : c.statement.count using Nat.strong_induction_on generalizing c with
  | _ n ih => exact step c fun d hd => ih d.statement.count (hn ▸ count_lt_of_mem_inner hd) d rfl

/-- The spot and all spots inside it, in pre-order. -/
def all (c : Spot) : List Spot := c :: c.inner.attach.flatMap fun d => d.1.all
termination_by c.statement.count
decreasing_by exact count_lt_of_mem_inner d.2

theorem all_eq (c : Spot) : c.all = c :: c.inner.flatMap all := by
  rw [all]
  simp

theorem mem_all_self (c : Spot) : c ∈ c.all := by
  rw [all_eq]
  exact List.mem_cons_self

/-- All spots of a tree hold the statements of the tree in pre-order. -/
theorem map_statement_all (c : Spot) : c.all.map statement = c.statement.preorder := by
  induction c using inner_induction with
  | step c ih =>
    rw [all_eq, preorder_eq, preorders, ← map_statement_inner, List.map_cons, List.map_flatMap, List.flatMap_map]
    exact congrArg _ (List.flatMap_congr ih)

theorem map_index_flatMap_all {i : Nat} {spots : List Spot}
    (h : ∀ d ∈ spots, d.all.map index = List.range' d.index d.statement.count)
    (hspots : spots.map index = positions i (spots.map statement)) :
    (spots.flatMap all).map index = List.range' i (counts (spots.map statement)) := by
  induction spots generalizing i with
  | nil => rfl
  | cons d spots ih =>
    rw [List.map_cons, List.map_cons, positions, List.cons.injEq] at hspots
    obtain ⟨hd, hspots⟩ := hspots
    rw [List.flatMap_cons, List.map_append, h d (by simp), ih (fun e he => h e (by simp [he])) hspots, hd,
      List.map_cons, counts_cons, List.range'_append_1]

/-- They stand at positions that follow each other. -/
theorem map_index_all (c : Spot) : c.all.map index = List.range' c.index c.statement.count := by
  induction c using inner_induction with
  | step c ih =>
    have hinner : c.inner.map index = positions (c.index + 1) (c.inner.map statement) := by
      rw [map_index_inner, map_statement_inner]
    rw [all_eq, List.map_cons, map_index_flatMap_all ih hinner, map_statement_inner, count_eq, List.range'_succ]

/-- A spot of a tree is the first one, or it is directly inside another one. -/
theorem eq_or_mem_inner {c d : Spot} (h : d ∈ c.all) : d = c ∨ ∃ o ∈ c.all, d ∈ o.inner := by
  induction c using inner_induction with
  | step c ih =>
    rw [all_eq] at h
    rcases List.mem_cons.1 h with rfl | h
    · exact .inl rfl
    · obtain ⟨e, he, hd⟩ := List.mem_flatMap.1 h
      right
      rcases ih e he hd with rfl | ⟨o, ho, hdo⟩
      · exact ⟨c, c.mem_all_self, he⟩
      · refine ⟨o, ?_, hdo⟩
        rw [all_eq]
        exact List.mem_cons_of_mem _ (List.mem_flatMap.2 ⟨e, he, ho⟩)

/-- The spots inside a spot of a tree are spots of the tree. -/
theorem inner_subset_all {c d e : Spot} (hd : d ∈ c.all) (he : e ∈ d.inner) : e ∈ c.all := by
  induction c using inner_induction with
  | step c ih =>
    rw [all_eq] at hd ⊢
    rcases List.mem_cons.1 hd with rfl | hd
    · exact List.mem_cons_of_mem _ (List.mem_flatMap.2 ⟨e, he, e.mem_all_self⟩)
    · obtain ⟨o, ho, hd⟩ := List.mem_flatMap.1 hd
      exact List.mem_cons_of_mem _ (List.mem_flatMap.2 ⟨o, ho, ih o ho hd⟩)

/-- The root of a tree. -/
def root (body : Statement) : Spot := ⟨0, none, 1, body⟩

@[simp] theorem length_all_root (body : Statement) : (root body).all.length = body.count := by
  rw [← List.length_map statement, map_statement_all, length_preorder]
  rfl

/-- The spots of a whole tree are found at their positions. -/
theorem getElem?_all_root {body : Statement} {k : Nat} {c : Spot} (h : (root body).all[k]? = some c) :
    c.index = k ∧ body.preorder[k]? = some c.statement := by
  have hk := (List.getElem?_eq_some_iff.1 h).1
  rw [length_all_root] at hk
  constructor
  · have hindex : ((root body).all.map index)[k]? = some c.index := by rw [List.getElem?_map, h, Option.map_some]
    rw [map_index_all, List.getElem?_range' (by simpa [root] using hk)] at hindex
    simpa [root] using (Option.some.inj hindex).symm
  · rw [← Option.map_some, ← h, ← List.getElem?_map, map_statement_all]
    rfl

theorem getElem?_preorder_of_mem {body : Statement} {c : Spot} (h : c ∈ (root body).all) :
    body.preorder[c.index]? = some c.statement := by
  obtain ⟨k, hk⟩ := List.mem_iff_getElem?.1 h
  obtain ⟨rfl, hs⟩ := getElem?_all_root hk
  exact hs

/-- Every statement of a tree has a spot. -/
theorem exists_of_preorder {body s : Statement} {k : Nat} (h : body.preorder[k]? = some s) :
    ∃ c ∈ (root body).all, c.index = k ∧ c.statement = s := by
  have hk : k < (root body).all.length := by
    rw [length_all_root]
    exact lt_count h
  have hget := List.getElem?_eq_getElem hk
  obtain ⟨hindex, hs⟩ := getElem?_all_root hget
  exact ⟨_, List.getElem_mem hk, hindex, Option.some.inj (hs.symm.trans h)⟩

end Spot

/-! ### The way back to a statement -/

/-- No two arms are named alike. -/
theorem Arm.label_injective : Function.Injective Arm.label := by
  intro a b h
  -- the labels differ in their first six characters already, but for the numbered ones
  have hstart : a.label.toList.take 6 = b.label.toList.take 6 := by rw [h]
  cases a <;> cases b
  all_goals simp [Arm.label] at hstart h ⊢
  all_goals simpa [Nat.toString_eq_repr, String.append_right_inj, Nat.repr_inj] using h

namespace Statement

theorem map_fst_numbered (arm : Nat → Arm) (lists : List (List Statement)) :
    (numbered arm lists).map Prod.fst = (List.range lists.length).map fun i => arm (i + 1) := by
  refine List.ext_getElem (by simp [numbered]) fun i hi hi' => ?_
  simp [numbered]

theorem nodup_numbers {arm : Nat → Arm} (harm : Function.Injective arm) (n : Nat) :
    ((List.range n).map fun i => arm (i + 1)).Nodup := by
  refine List.nodup_range.map fun i j hij => ?_
  simpa using harm hij

/-- The arms of a statement have different labels. -/
theorem nodup_labels (s : Statement) : (s.arms.map fun a => a.1.label).Nodup := by
  have hmap : s.arms.map (fun a => a.1.label) = (s.arms.map Prod.fst).map Arm.label := by simp
  rw [hmap]
  refine List.Nodup.map Arm.label_injective ?_
  cases s with
  | block site label body handlers =>
    have hnodup := nodup_numbers (fun _ _ => Arm.handler.inj) handlers.length
    simp [arms, map_fst_numbered, hnodup]
  | cond site thenBody elsifs elseBody =>
    have hnodup := nodup_numbers (fun _ _ => Arm.elsif.inj) elsifs.length
    cases elseBody <;> simp [arms, map_fst_numbered, List.nodup_append, hnodup]
  | choice site whens elseBody =>
    have hnodup := nodup_numbers (fun _ _ => Arm.caseWhen.inj) whens.length
    cases elseBody <;> simp [arms, map_fst_numbered, List.nodup_append, hnodup]
  | loop site kind body => simp [arms]
  | simple site kind fingerprint => simp [arms]

/-- The position of the statement that has the number `n` in the arm with a label, directly inside the statement at
position `k`. -/
def follow (body : Statement) (k : Nat) (label : String) (n : Nat) : Option Nat := do
  let s ← body.preorder[k]?
  let a ← (armSpots k (k + 1) [] s.arms).find? fun a => a.arm.label == label
  if n = 0 then none else (positions a.start a.list)[n - 1]?

end Statement

namespace Spot

/-- Only one arm of a statement has its label. -/
theorem find?_label {c : Spot} {a : ArmSpot} (h : a ∈ c.arms) :
    c.arms.find? (fun b => b.arm.label == a.arm.label) = some a := by
  have hnodup : (c.arms.map fun b => b.arm.label).Nodup := by
    have hlabels : (c.arms.map fun b => b.arm.label) = c.statement.arms.map fun b => b.1.label := by
      have harms : c.arms.map ArmSpot.arm = c.statement.arms.map Prod.fst := map_arm_armSpots
      simpa [Function.comp_def] using congrArg (List.map Arm.label) harms
    rw [hlabels]
    exact c.statement.nodup_labels
  cases hfind : c.arms.find? fun b => b.arm.label == a.arm.label with
  | none => simpa using List.find?_eq_none.1 hfind a h
  | some b =>
    have hb := List.find?_some hfind
    rw [beq_iff_eq] at hb
    rw [List.inj_on_of_nodup_map hnodup (List.mem_of_find?_eq_some hfind) h hb]

/-- A spot directly inside another one is found on the way that it names. -/
theorem follow_of_mem_inner {body : Statement} {c d : Spot} (hc : body.preorder[c.index]? = some c.statement)
    (hd : d ∈ c.inner) :
    ∃ arm, d.parent = some ⟨c.index, arm⟩ ∧ body.follow c.index arm.label d.position = some d.index := by
  obtain ⟨a, ha, hda⟩ := mem_inner.1 hd
  obtain ⟨hparent, n, hn, hindex, -⟩ := of_mem_listSpots hda
  have houter : a.outer = c.index := outer_of_mem_armSpots ha
  refine ⟨a.arm, by rw [hparent, houter], ?_⟩
  have hfind := find?_label ha
  unfold arms at hfind
  simp [follow, hc, hfind, hn, hindex]

end Spot

end ProcProfile
