import Mathlib.Algebra.BigOperators.Group.List.Basic
import Mathlib.Tactic
import ProcProfile.Statement

/-!
# Statement trees by position

A statement is found by its position in pre-order, and what is nested in it takes the positions right after
its own.  Whatever kind a statement is of, only the list of the statements directly inside it matters here.

* `Statement.nested`, `Statement.nested_induction`: the statements directly inside a statement;
* `Statement.preorder_eq`, `Statement.count_eq`: pre-order and count in these terms;
* `AllFrom`: a property of all statements of a list, with their positions;
* `Statement.getElem?_preorder_add`: the statements nested in one stand right after it;
* `Statement.children`, `Statement.Encloses`: the positions directly inside a position, and all of those inside.
-/

namespace ProcProfile

/-! ### Lists with positions -/

/-- A property holds of every member of a list, the first of which is at position `i`. -/
def AllFrom {α : Type} (P : Nat → α → Prop) (i : Nat) (l : List α) : Prop :=
  ∀ j a, l[j]? = some a → P (i + j) a

section AllFrom

variable {α : Type} {P Q : Nat → α → Prop} {i : Nat} {a : α} {l l' : List α}

theorem allFrom_nil : AllFrom P i [] := by simp [AllFrom]

theorem allFrom_cons : AllFrom P i (a :: l) ↔ P i a ∧ AllFrom P (i + 1) l := by
  constructor
  · refine fun h => ⟨h 0 a rfl, fun j b hj => ?_⟩
    rw [Nat.add_assoc, Nat.add_comm 1 j]
    exact h (j + 1) b hj
  · rintro ⟨hhead, htail⟩ j b hj
    cases j with
    | zero =>
      cases hj
      exact hhead
    | succ j =>
      rw [← Nat.add_assoc, Nat.add_right_comm]
      exact htail j b hj

theorem allFrom_append : AllFrom P i (l ++ l') ↔ AllFrom P i l ∧ AllFrom P (i + l.length) l' := by
  induction l generalizing i with
  | nil => simp [allFrom_nil]
  | cons a l ih =>
    rw [List.cons_append, allFrom_cons, allFrom_cons, ih, and_assoc, List.length_cons, Nat.add_assoc,
      Nat.add_comm 1]

theorem AllFrom.imp (h : AllFrom P i l) (hPQ : ∀ k b, i ≤ k → k < i + l.length → P k b → Q k b) :
    AllFrom Q i l := by
  intro j b hj
  have hlt := (List.getElem?_eq_some_iff.1 hj).1
  exact hPQ (i + j) b (by omega) (by omega) (h j b hj)

end AllFrom

namespace Statement

/-! ### What is directly inside a statement -/

/-- The statements in the arms of a statement, arm after arm. -/
def nested (s : Statement) : List Statement := s.arms.flatMap Prod.snd

theorem flatMap_numbered (arm : Nat → Arm) (lists : List (List Statement)) :
    (numbered arm lists).flatMap Prod.snd = lists.flatten := by
  have hlists : (numbered arm lists).map Prod.snd = lists := by
    refine List.ext_getElem? fun i => ?_
    cases h : lists[i]? <;> simp [numbered, h]
  rw [List.flatMap_def, hlists]

theorem flatMap_toList (arm : Arm) (list : Option (List Statement)) :
    (list.toList.map fun l => (arm, l)).flatMap Prod.snd = list.getD [] := by
  cases list <;> simp

@[simp] theorem nested_block (site : Site) (label : Option String) (body : List Statement)
    (handlers : List (List Statement)) :
    (block site label body handlers).nested = body ++ handlers.flatten := by
  rw [nested, arms, List.flatMap_cons, flatMap_numbered]

@[simp] theorem nested_cond (site : Site) (thenBody : List Statement) (elsifs : List (List Statement))
    (elseBody : Option (List Statement)) :
    (cond site thenBody elsifs elseBody).nested = thenBody ++ elsifs.flatten ++ elseBody.getD [] := by
  rw [nested, arms, List.flatMap_cons, List.flatMap_append, flatMap_numbered, flatMap_toList,
    List.append_assoc]

@[simp] theorem nested_choice (site : Site) (whens : List (List Statement))
    (elseBody : Option (List Statement)) :
    (choice site whens elseBody).nested = whens.flatten ++ elseBody.getD [] := by
  rw [nested, arms, List.flatMap_append, flatMap_numbered, flatMap_toList]

@[simp] theorem nested_loop (site : Site) (kind : LoopKind) (body : List Statement) :
    (loop site kind body).nested = body := by
  simp [nested, arms]

@[simp] theorem nested_simple (site : Site) (kind : SimpleKind) (fingerprint : Option UInt64) :
    (simple site kind fingerprint).nested = [] := rfl

theorem nested_of_simple {s : Statement} (h : s.isCompound = false) : s.nested = [] := by
  cases s with
  | simple site kind fingerprint => rfl
  | _ => cases h

/-- The statements of a list with all that is nested in them, tree after tree. -/
def preorders (list : List Statement) : List Statement := list.flatMap preorder

/-- How many these are. -/
def counts (list : List Statement) : Nat := (list.map count).sum

@[simp] theorem preorders_nil : preorders [] = [] := rfl

@[simp] theorem preorders_cons (s : Statement) (list : List Statement) :
    preorders (s :: list) = s.preorder ++ preorders list := List.flatMap_cons

@[simp] theorem preorders_append (list list' : List Statement) :
    preorders (list ++ list') = preorders list ++ preorders list' := List.flatMap_append

@[simp] theorem counts_nil : counts [] = 0 := rfl

@[simp] theorem counts_cons (s : Statement) (list : List Statement) :
    counts (s :: list) = s.count + counts list := by simp [counts]

@[simp] theorem counts_append (list list' : List Statement) :
    counts (list ++ list') = counts list + counts list' := by simp [counts]

@[simp] theorem length_preorders (list : List Statement) : (preorders list).length = counts list := by
  induction list with
  | nil => rfl
  | cons s list ih => rw [preorders_cons, List.length_append, ih, length_preorder, counts_cons]

mutual

theorem reverse_walk (passed : List Statement) (s : Statement) :
    (walk passed s).reverse = passed.reverse ++ s :: preorders s.nested := by
  match s with
  | .block _ _ body handlers =>
    simp [walk, reverse_walkLists _ handlers, reverse_walkList _ body]
  | .cond _ thenBody elsifs none =>
    simp [walk, reverse_walkLists _ elsifs, reverse_walkList _ thenBody]
  | .cond _ thenBody elsifs (some elseBody) =>
    simp [walk, reverse_walkLists _ elsifs, reverse_walkList _ thenBody, reverse_walkList _ elseBody]
  | .choice _ whens none => simp [walk, reverse_walkLists _ whens]
  | .choice _ whens (some elseBody) =>
    simp [walk, reverse_walkLists _ whens, reverse_walkList _ elseBody]
  | .loop _ _ body => simp [walk, reverse_walkList _ body]
  | .simple .. => simp [walk]

theorem reverse_walkList (passed list : List Statement) :
    (walkList passed list).reverse = passed.reverse ++ preorders list := by
  match list with
  | [] => simp [walkList]
  | s :: list =>
    have hhead : s.preorder = s :: preorders s.nested := reverse_walk [] s
    simp [walkList, reverse_walkList _ list, reverse_walk passed s, hhead]

theorem reverse_walkLists (passed : List Statement) (lists : List (List Statement)) :
    (walkLists passed lists).reverse = passed.reverse ++ preorders lists.flatten := by
  match lists with
  | [] => simp [walkLists]
  | list :: lists => simp [walkLists, reverse_walkLists _ lists, reverse_walkList _ list]

end

/-- A statement stands before what is nested in it. -/
theorem preorder_eq (s : Statement) : s.preorder = s :: preorders s.nested := reverse_walk [] s

theorem count_eq (s : Statement) : s.count = counts s.nested + 1 := by
  rw [← length_preorder, preorder_eq, List.length_cons, length_preorders]

theorem count_pos (s : Statement) : 0 < s.count := by
  rw [count_eq]
  exact Nat.succ_pos _

theorem count_le_counts {s : Statement} {list : List Statement} (h : s ∈ list) : s.count ≤ counts list :=
  List.single_le_sum (by simp) _ (List.mem_map_of_mem h)

/-- What holds of a statement if it holds of all statements directly inside it, holds of every statement. -/
@[elab_as_elim] theorem nested_induction {motive : Statement → Prop}
    (step : ∀ s, (∀ c ∈ s.nested, motive c) → motive s) (s : Statement) : motive s := by
  induction hn : s.count using Nat.strong_induction_on generalizing s with
  | _ n ih =>
    refine step s fun c hc => ih c.count ?_ c rfl
    have := count_le_counts hc
    have := s.count_eq
    omega

theorem allFrom_preorder {P : Nat → Statement → Prop} {i : Nat} {s : Statement} :
    AllFrom P i s.preorder ↔ P i s ∧ AllFrom P (i + 1) (preorders s.nested) := by
  rw [preorder_eq, allFrom_cons]

theorem allFrom_preorders_cons {P : Nat → Statement → Prop} {i : Nat} {s : Statement} {list : List Statement} :
    AllFrom P i (preorders (s :: list)) ↔
      AllFrom P i s.preorder ∧ AllFrom P (i + s.count) (preorders list) := by
  rw [preorders_cons, allFrom_append, length_preorder]

theorem allFrom_preorders_append {P : Nat → Statement → Prop} {i : Nat} {list list' : List Statement} :
    AllFrom P i (preorders (list ++ list')) ↔
      AllFrom P i (preorders list) ∧ AllFrom P (i + counts list) (preorders list') := by
  rw [preorders_append, allFrom_append, length_preorders]

/-! ### Where the nested statements stand -/

theorem allFrom_end_preorders {list : List Statement} (i : Nat)
    (h : ∀ s ∈ list, ∀ i, AllFrom (fun k c => k + c.count ≤ i + s.count) i s.preorder) :
    AllFrom (fun k c => k + c.count ≤ i + counts list) i (preorders list) := by
  induction list generalizing i with
  | nil => exact allFrom_nil
  | cons s list ih =>
    rw [allFrom_preorders_cons, counts_cons]
    refine ⟨(h s (by simp) i).imp fun k c _ _ hk => by omega, ?_⟩
    refine (ih (i + s.count) fun c hc => h c (by simp [hc])).imp fun k c _ _ hk => by omega

/-- No statement reaches past the end of one that it is nested in. -/
theorem allFrom_end (i : Nat) (s : Statement) :
    AllFrom (fun k c => k + c.count ≤ i + s.count) i s.preorder := by
  induction s using nested_induction generalizing i with
  | step s ih =>
    rw [allFrom_preorder]
    refine ⟨le_rfl, (allFrom_end_preorders (i + 1) fun c hc i => ih c hc i).imp fun k c _ _ hk => ?_⟩
    have := s.count_eq
    omega

theorem allFrom_segment_preorders {whole list : List Statement} {i : Nat}
    (h : ∀ s ∈ list, ∀ i, (∀ j < s.count, whole[i + j]? = s.preorder[j]?) →
      AllFrom (fun k c => ∀ j < c.count, whole[k + j]? = c.preorder[j]?) i s.preorder)
    (hlist : ∀ j < counts list, whole[i + j]? = (preorders list)[j]?) :
    AllFrom (fun k c => ∀ j < c.count, whole[k + j]? = c.preorder[j]?) i (preorders list) := by
  induction list generalizing i with
  | nil => exact allFrom_nil
  | cons s list ih =>
    rw [counts_cons, preorders_cons] at hlist
    rw [allFrom_preorders_cons]
    refine ⟨h s (by simp) i fun j hj => ?_, ih (fun c hc => h c (by simp [hc])) fun j hj => ?_⟩
    · rw [hlist j (by omega), List.getElem?_append_left (by simpa using hj)]
    · rw [Nat.add_assoc, hlist (s.count + j) (by omega), List.getElem?_append_right (by simp)]
      simp

/-- If the tree of a statement stands in a list from position `i` on, so does the tree of every statement that
is nested in it, from its own position on. -/
theorem allFrom_segment {whole : List Statement} {i : Nat} {s : Statement}
    (h : ∀ j < s.count, whole[i + j]? = s.preorder[j]?) :
    AllFrom (fun k c => ∀ j < c.count, whole[k + j]? = c.preorder[j]?) i s.preorder := by
  induction s using nested_induction generalizing i with
  | step s ih =>
    rw [allFrom_preorder]
    refine ⟨h, allFrom_segment_preorders (fun c hc i => ih c hc) fun j hj => ?_⟩
    have hcount := s.count_eq
    rw [Nat.add_assoc, Nat.add_comm 1 j, h (j + 1) (by omega), preorder_eq, List.getElem?_cons_succ]

/-- The tree of a statement stands in the tree around it, from the position of the statement on. -/
theorem getElem?_preorder_add {body s : Statement} {i : Nat} (h : body.preorder[i]? = some s) {j : Nat}
    (hj : j < s.count) : body.preorder[i + j]? = s.preorder[j]? := by
  have hwhole : ∀ j < body.count, body.preorder[0 + j]? = body.preorder[j]? := fun j _ => by rw [Nat.zero_add]
  simpa using allFrom_segment hwhole i s h j hj

theorem lt_count {body s : Statement} {k : Nat} (h : body.preorder[k]? = some s) : k < body.count := by
  rw [← length_preorder]
  exact (List.getElem?_eq_some_iff.1 h).1

/-- What holds of all statements of a tree holds of those nested in one of them. -/
theorem allFrom_subtree {P : Nat → Statement → Prop} {body s : Statement} {i : Nat}
    (h : AllFrom P 0 body.preorder) (hs : body.preorder[i]? = some s) : AllFrom P i s.preorder := by
  intro j c hc
  have hwhole := h (i + j) c (by rwa [getElem?_preorder_add hs (lt_count hc)])
  rwa [Nat.zero_add] at hwhole

theorem add_count_le {body s : Statement} {i : Nat} (h : body.preorder[i]? = some s) :
    i + s.count ≤ body.count := by
  simpa using allFrom_end 0 body i s h

/-! ### Children by position -/

/-- The positions of the statements of a list, the first of which is at position `i`. -/
def positions (i : Nat) : List Statement → List Nat
  | [] => []
  | s :: list => i :: positions (i + s.count) list

/-- The positions of the statements directly inside the one at position `i`. -/
def children (body : Statement) (i : Nat) : List Nat :=
  body.preorder[i]?.elim [] fun s => positions (i + 1) s.nested

/-- How many positions the tree of the statement at position `i` takes. -/
def extent (body : Statement) (i : Nat) : Nat := body.preorder[i]?.elim 0 count

/-- The statement at position `i` is the one at position `j`, or the latter is nested in it. -/
def Encloses (body : Statement) (i j : Nat) : Prop := i ≤ j ∧ j < i + body.extent i

instance (body : Statement) (i j : Nat) : Decidable (body.Encloses i j) :=
  inferInstanceAs (Decidable (_ ∧ _))

theorem extent_eq {body s : Statement} {i : Nat} (h : body.preorder[i]? = some s) :
    body.extent i = s.count := by
  rw [extent, h, Option.elim_some]

theorem children_eq {body s : Statement} {i : Nat} (h : body.preorder[i]? = some s) :
    body.children i = positions (i + 1) s.nested := by
  rw [children, h, Option.elim_some]

theorem le_of_mem_positions {i c : Nat} {list : List Statement} (h : c ∈ positions i list) : i ≤ c := by
  induction list generalizing i with
  | nil => cases h
  | cons s list ih =>
    rcases List.mem_cons.1 h with rfl | h
    · exact le_rfl
    · have := ih h
      omega

theorem nodup_positions (i : Nat) {list : List Statement} (h : ∀ s ∈ list, 0 < s.count) :
    (positions i list).Nodup := by
  induction list generalizing i with
  | nil => exact List.nodup_nil
  | cons s list ih =>
    refine List.nodup_cons.2 ⟨fun hi => ?_, ih _ fun c hc => h c (by simp [hc])⟩
    have := le_of_mem_positions hi
    have := h s (by simp)
    omega

/-- A position of a list of trees splits it there. -/
theorem exists_of_mem_positions {i c : Nat} {list : List Statement} (h : c ∈ positions i list) :
    ∃ front s back, list = front ++ s :: back ∧ c = i + counts front := by
  induction list generalizing i with
  | nil => cases h
  | cons s list ih =>
    rcases List.mem_cons.1 h with rfl | h
    · exact ⟨[], s, list, rfl, rfl⟩
    · obtain ⟨front, s', back, rfl, rfl⟩ := ih h
      exact ⟨s :: front, s', back, rfl, by rw [counts_cons, Nat.add_assoc]⟩

theorem lt_of_mem_children {body : Statement} {i c : Nat} (h : c ∈ body.children i) : i < c := by
  unfold children at h
  cases hs : body.preorder[i]? with
  | none => simp [hs] at h
  | some s =>
    rw [hs] at h
    exact le_of_mem_positions h

theorem nodup_children (body : Statement) (i : Nat) : (body.children i).Nodup := by
  unfold children
  cases body.preorder[i]? with
  | none => exact List.nodup_nil
  | some s => exact nodup_positions _ fun c _ => c.count_pos

/-- What stands before a child, behind its parent, ends before the child. -/
theorem end_le_of_mem_children {body s : Statement} {i k c : Nat} (hc : c ∈ body.children i) (hik : i < k)
    (hkc : k < c) (hk : body.preorder[k]? = some s) : k + s.count ≤ c := by
  cases hs : body.preorder[i]? with
  | none => simp [children, hs] at hc
  | some parent =>
    rw [children_eq hs] at hc
    obtain ⟨front, child, back, hnested, rfl⟩ := exists_of_mem_positions hc
    have hcount := parent.count_eq
    rw [hnested, counts_append, counts_cons] at hcount
    obtain ⟨j, rfl⟩ : ∃ j, k = i + (j + 1) := ⟨k - i - 1, by omega⟩
    rw [getElem?_preorder_add hs (by omega), preorder_eq, List.getElem?_cons_succ, hnested,
      preorders_append, List.getElem?_append_left (by rw [length_preorders]; omega)] at hk
    have hend := allFrom_end_preorders (i + 1) (fun c (_ : c ∈ front) i => allFrom_end i c) j s hk
    omega

theorem lt_end_of_mem_children {body s : Statement} {i c : Nat} (hc : c ∈ body.children i)
    (hs : body.preorder[i]? = some s) : c < i + s.count := by
  rw [children_eq hs] at hc
  obtain ⟨front, child, back, hnested, rfl⟩ := exists_of_mem_positions hc
  have hcount := s.count_eq
  rw [hnested, counts_append, counts_cons] at hcount
  have := child.count_pos
  omega

/-- A statement is directly inside one other statement only. -/
theorem parent_unique {body : Statement} {i i' c : Nat} (h : c ∈ body.children i)
    (h' : c ∈ body.children i') : i = i' := by
  have hlt : ∀ {i i' : Nat}, c ∈ body.children i → c ∈ body.children i' → ¬ i < i' := by
    intro i i' h h' hii
    cases hs : body.preorder[i']? with
    | none => simp [children, hs] at h'
    | some s =>
      have := end_le_of_mem_children h hii (lt_of_mem_children h') hs
      have := lt_end_of_mem_children h' hs
      omega
  have := hlt h h'
  have := hlt h' h
  omega

end Statement

end ProcProfile
