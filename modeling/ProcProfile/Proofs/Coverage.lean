import Mathlib.Data.List.Perm.Basic
import Mathlib.Tactic
import ProcProfile.Coverage
import ProcProfile.Proofs.Reading.Rows

/-!
# Coverage by its definition

What coverage counts is fixed by the tree: its visible statements, and its branches, which are the lists of its IFs,
CASEs and loops and one implicit ELSE for each IF without an ELSE.  Which of them count as executed is read off the
execution counts of single statements.  A walk meets both in an order of its own and carries the counts upward; what it
counts in the end is what the definition says.

* `Statement.branches`, `Statement.branchUnits`: the branches of a statement and of a tree;
* `Branch.Executed`: a branch was executed;
* `Coverage.ofTree`: the coverage of a tree by its definition;
* `Reading.items_perm`: what a walk passes, statements first;
* `Coverage.counts_of_collect`: what is collected is the coverage of the tree;
* `Coverage.collect_by_definition`: from records that match, it is collected.
-/

namespace ProcProfile

open Statement

/-! ### Branches of a tree -/

/-- Lists that are branches and stand one after another from position `i` on. -/
def listBranches (i : Nat) : List (List Statement) → List Branch
  | [] => []
  | list :: rest => .list i list :: listBranches (i + counts list) rest

namespace Statement

/-- The branches of the statement at position `i`. -/
def branches (i : Nat) : Statement → List Branch
  | .cond _ thenBody elsifs none =>
    listBranches (i + 1) (thenBody :: elsifs) ++ [.implicitElse i (thenBody :: elsifs)]
  | .cond _ thenBody elsifs (some elseBody) => listBranches (i + 1) (thenBody :: elsifs ++ [elseBody])
  | .choice _ whens elseBody => listBranches (i + 1) (whens ++ elseBody.toList)
  | .loop _ _ body => listBranches (i + 1) [body]
  | .block .. | .simple .. => []

/-- The branches of all statements of a tree. -/
def branchUnits (body : Statement) : List Branch := body.preorder.zipIdx.flatMap fun x => x.1.branches x.2

/-- An IF without an ELSE. -/
def lacksElse : Statement → Bool
  | .cond _ _ _ none => true
  | .cond _ _ _ (some _) | .block .. | .choice .. | .loop .. | .simple .. => false

theorem zipIdx_preorder (body : Statement) :
    body.preorder.zipIdx = (Spot.root body).all.map fun c => (c.statement, c.index) := by
  have hstatement : (Spot.root body).all.map Spot.statement = body.preorder := Spot.map_statement_all _
  have hindex : (Spot.root body).all.map Spot.index = List.range' 0 body.preorder.length := by
    rw [Spot.map_index_all, length_preorder]
    rfl
  rw [List.zipIdx_eq_zip_range', ← hindex, ← hstatement, List.zip_map']

theorem countP_isVisible_zipIdx (body : Statement) :
    body.preorder.zipIdx.countP (fun x => x.1.isVisible) = body.preorder.countP isVisible := by
  have hmap : body.preorder.zipIdx.map Prod.fst = body.preorder := by simp
  conv_rhs => rw [← hmap, List.countP_map]
  rfl

theorem branchUnits_eq (body : Statement) :
    body.branchUnits = (Spot.root body).all.flatMap fun c => c.statement.branches c.index := by
  rw [branchUnits, zipIdx_preorder, List.flatMap_map]

end Statement

namespace Branch

open Reading

/-- A list was executed if it has a first statement that was; an implicit ELSE, if its IF was executed more often than
all its branches were taken. -/
def Executed (p : Profile) : Branch → Prop
  | .list start body => body ≠ [] ∧ 0 < exec p start
  | .implicitElse outer taken => entriesSum p (outer + 1) taken < exec p outer

/-- The branches of an IF without an ELSE were taken more often than it was executed. -/
def Overrun (p : Profile) : Branch → Prop
  | .list .. => False
  | .implicitElse outer taken => exec p outer < entriesSum p (outer + 1) taken

instance (p : Profile) : DecidablePred (Executed p)
  | .list start body => inferInstanceAs (Decidable (body ≠ [] ∧ 0 < exec p start))
  | .implicitElse outer taken => inferInstanceAs (Decidable (entriesSum p (outer + 1) taken < exec p outer))

instance (p : Profile) : DecidablePred (Overrun p)
  | .list .. => inferInstanceAs (Decidable False)
  | .implicitElse outer taken => inferInstanceAs (Decidable (exec p outer < entriesSum p (outer + 1) taken))

@[simp] theorem not_overrun_list (p : Profile) (start : Nat) (body : List Statement) :
    ¬ (Branch.list start body).Overrun p := id

@[simp] theorem overrun_implicitElse (p : Profile) (outer : Nat) (taken : List (List Statement)) :
    (implicitElse outer taken).Overrun p ↔ exec p outer < entriesSum p (outer + 1) taken := .rfl

/-- How often a branch was taken. -/
def execs (p : Profile) : Branch → Nat
  | .list start body => entries p start body
  | .implicitElse outer taken => exec p outer - entriesSum p (outer + 1) taken

theorem execs_lt (p : Profile) (b : Branch) : b.execs p < 2 ^ 64 := by
  cases b with
  | list start body => exact entries_lt p start body
  | implicitElse outer taken => exact (Nat.sub_le _ _).trans_lt (exec_lt p outer)

theorem execs_pos_iff {p : Profile} {b : Branch} : 0 < b.execs p ↔ b.Executed p := by
  cases b with
  | list start body => cases body <;> simp [execs, entries, Executed]
  | implicitElse outer taken => simp [execs, Executed]

end Branch

/-- The coverage of a tree by its definition. -/
def Coverage.ofTree (p : Profile) (body : Statement) : CoverageCounts where
  statements := body.preorder.countP isVisible
  executedStatements := body.preorder.zipIdx.countP fun x => x.1.isVisible && decide (0 < Reading.exec p x.2)
  branches := body.branchUnits.length
  executedBranches := body.branchUnits.countP fun b => decide (b.Executed p)
  anomalies := body.preorder.zipIdx.countP fun x =>
    x.1.lacksElse && decide (Reading.exec p x.2 < Reading.branchExecs p x.2 x.1)

/-! ### The branches that a walk notes -/

/-- The lists in this arm are branches. -/
def Arm.isBranch : Arm → Bool
  | .body | .handler _ => false
  | .thenBody | .elsif _ | .elseBody | .caseWhen _ | .caseElse | .loopBody => true

section Noted

open Reading

variable {p : Profile} {outer i : Nat} {before : List (List Statement)} {arms : List (Arm × List Statement)}

theorem ArmSpot.flatMap_items_closing (a : ArmSpot) :
    a.closing.flatMap (Step.items p) = if a.arm.isBranch then Step.items p (.branch (.list a.start a.list)) else [] := by
  obtain ⟨outer, arm, start, list, before⟩ := a
  cases arm <;> simp [closing, Arm.isBranch, Step.items]

theorem flatMap_items_armSpots (h : ∀ a ∈ arms, a.1.isBranch = true) :
    ((armSpots outer i before arms).flatMap ArmSpot.closing).flatMap (Step.items p) =
      (listBranches i (arms.map Prod.snd)).flatMap fun b => Step.items p (.branch b) := by
  induction arms generalizing i before with
  | nil => rfl
  | cons a arms ih =>
    rw [armSpots, List.flatMap_cons, List.flatMap_append, ih fun b hb => h b (List.mem_cons_of_mem _ hb),
      ArmSpot.flatMap_items_closing, if_pos (h a List.mem_cons_self)]
    rfl

theorem flatMap_items_armSpots_of_not (h : ∀ a ∈ arms, a.1.isBranch = false) :
    ((armSpots outer i before arms).flatMap ArmSpot.closing).flatMap (Step.items p) = [] := by
  induction arms generalizing i before with
  | nil => rfl
  | cons a arms ih =>
    rw [armSpots, List.flatMap_cons, List.flatMap_append, ih fun b hb => h b (List.mem_cons_of_mem _ hb),
      ArmSpot.flatMap_items_closing]
    simp [h a List.mem_cons_self]

theorem Statement.map_snd_numbered (arm : Nat → Arm) (lists : List (List Statement)) :
    (numbered arm lists).map Prod.snd = lists := by
  refine List.ext_getElem (by simp [numbered]) fun i hi hi' => ?_
  simp [numbered]

theorem Statement.isBranch_of_mem_numbered {arm : Nat → Arm} {isBranch : Bool} {lists : List (List Statement)}
    {a : Arm × List Statement} (ha : a ∈ numbered arm lists) (harm : ∀ n, (arm n).isBranch = isBranch) :
    a.1.isBranch = isBranch := by
  obtain ⟨n, hn, rfl⟩ := List.mem_mapIdx.1 ha
  exact harm (n + 1)

/-- After the statements of its arms, a walk passes the branches of a statement. -/
theorem Spot.flatMap_items_closings (c : Spot) :
    c.closings.flatMap (Step.items p) =
      (c.statement.branches c.index).flatMap fun b => Step.items p (.branch b) := by
  obtain ⟨index, parent, position, s⟩ := c
  rw [closings, List.flatMap_append, arms]
  cases s with
  | block site label body handlers =>
    rw [flatMap_items_armSpots_of_not]
    · rfl
    · intro a ha
      rcases List.mem_cons.1 ha with rfl | ha
      · rfl
      · exact isBranch_of_mem_numbered ha fun _ => rfl
  | cond site thenBody elsifs elseBody =>
    rw [flatMap_items_armSpots]
    · cases elseBody <;> simp [Statement.arms, Statement.branches, closing, map_snd_numbered]
    · intro a ha
      simp only [Statement.arms, List.mem_cons, List.mem_append, List.mem_map] at ha
      rcases ha with rfl | ha | ⟨list, -, rfl⟩
      · rfl
      · exact isBranch_of_mem_numbered ha fun _ => rfl
      · rfl
  | choice site whens elseBody =>
    rw [flatMap_items_armSpots]
    · cases elseBody <;> simp [Statement.arms, Statement.branches, closing, map_snd_numbered]
    · intro a ha
      simp only [Statement.arms, List.mem_append, List.mem_map] at ha
      rcases ha with ha | ⟨list, -, rfl⟩
      · exact isBranch_of_mem_numbered ha fun _ => rfl
      · rfl
  | loop site kind body => simp [Statement.arms, armSpots, Statement.branches, closing, ArmSpot.closing, listBranches]
  | simple site kind fingerprint => rfl

/-- What a walk passes: the statements of the tree, and its branches. -/
theorem Reading.items_perm (p : Profile) (body : Statement) :
    ((Spot.root body).steps.flatMap (Step.items p)).Perm
      ((Spot.root body).all.flatMap (fun c => Step.items p (.read c)) ++
        body.branchUnits.flatMap fun b => Step.items p (.branch b)) := by
  have hsteps := (Spot.root body).steps_perm.flatMap_right (Step.items p)
  rw [List.flatMap_assoc] at hsteps
  simp only [List.flatMap_cons, Spot.flatMap_items_closings] at hsteps
  rw [branchUnits_eq, List.flatMap_assoc]
  exact hsteps.trans (List.flatMap_append_perm _ _ _).symm

end Noted

/-! ### Counting what was passed -/

namespace ReadItem

/-- A visible statement whose executions are such. -/
def isStatement (f : Counter → Bool) : ReadItem → Bool
  | .statement _ _ _ s record => s.isVisible && f record.execCount
  | .branch _ | .overrun => false

/-- A branch that was taken such a number of times. -/
def isBranch (f : Counter → Bool) : ReadItem → Bool
  | .branch execCount => f execCount
  | .statement .. | .overrun => false

def isOverrun : ReadItem → Bool
  | .overrun => true
  | .statement .. | .branch _ => false

end ReadItem

theorem CoverageCounts.foldl_addItem (c : CoverageCounts) (items : List ReadItem) :
    items.foldl addItem c =
      ⟨c.statements + items.countP (ReadItem.isStatement fun _ => true),
        c.executedStatements + items.countP (ReadItem.isStatement fun e => decide (0 < e)),
        c.branches + items.countP (ReadItem.isBranch fun _ => true),
        c.executedBranches + items.countP (ReadItem.isBranch fun e => decide (0 < e)),
        c.anomalies + items.countP ReadItem.isOverrun⟩ := by
  induction items generalizing c with
  | nil => rfl
  | cons item items ih =>
    rw [List.foldl_cons, ih]
    cases item with
    | statement id parent position s record =>
      by_cases hs : s.isVisible <;> by_cases he : 0 < record.execCount <;>
        simp [addItem, addStatement, ReadItem.isStatement, ReadItem.isBranch, ReadItem.isOverrun, hs, he,
          Nat.add_assoc, Nat.add_comm 1]
    | branch execCount =>
      by_cases he : 0 < execCount <;>
        simp [addItem, addBranch, ReadItem.isStatement, ReadItem.isBranch, ReadItem.isOverrun, List.countP_cons, he,
          Nat.add_assoc, Nat.add_comm 1]
    | overrun =>
      simp [addItem, ReadItem.isStatement, ReadItem.isBranch, ReadItem.isOverrun, List.countP_cons, Nat.add_assoc,
        Nat.add_comm 1]

namespace Reading

variable {p : Profile} {body : Statement}

/-- What is passed at a branch, if its counts can be added up. -/
theorem items_branch {b : Branch} (hfits : ∀ outer taken, b = .implicitElse outer taken →
      entriesSum p (outer + 1) taken < 2 ^ 64) :
    Step.items p (.branch b) =
      (if b.Overrun p then [.overrun] else []) ++ [.branch (UInt64.ofNat (b.execs p))] := by
  cases b with
  | list start list => rfl
  | implicitElse outer taken =>
    have hexec := exec_lt p outer
    have htaken := hfits outer taken rfl
    have hle : UInt64.ofNat (entriesSum p (outer + 1) taken) ≤ UInt64.ofNat (exec p outer) ↔
        entriesSum p (outer + 1) taken ≤ exec p outer := by
      rw [UInt64.le_iff_toNat_le, UInt64.toNat_ofNat_of_lt' htaken, UInt64.toNat_ofNat_of_lt' hexec]
    rw [Step.items, implicitElseItems]
    by_cases h : entriesSum p (outer + 1) taken ≤ exec p outer
    · rw [if_pos (hle.2 h), if_neg (by simpa [Branch.Overrun] using h), Branch.execs, UInt64.ofNat_sub h]
      rfl
    · rw [if_neg (mt hle.1 h), if_pos (by simpa [Branch.Overrun] using h), Branch.execs, Nat.sub_eq_zero_of_le (by omega)]
      rfl

/-- Things that come from single things are counted there. -/
theorem countP_flatMap_eq {α β : Type} {l : List α} {g : α → List β} {P : β → Bool} {Q : α → Bool}
    (h : ∀ a ∈ l, (g a).countP P = (Q a).toNat) : (l.flatMap g).countP P = l.countP Q := by
  induction l with
  | nil => rfl
  | cons a l ih =>
    rw [List.flatMap_cons, List.countP_append, h a List.mem_cons_self, ih fun b hb => h b (List.mem_cons_of_mem _ hb),
      List.countP_cons]
    cases Q a <;> simp [Nat.add_comm]

theorem countP_isStatement (f : Counter → Bool) :
    ((Spot.root body).steps.flatMap (Step.items p)).countP (ReadItem.isStatement f) =
      body.preorder.zipIdx.countP fun x => x.1.isVisible && f (stored p x.2).execCount := by
  have hread : ((Spot.root body).all.flatMap fun c => Step.items p (.read c)).countP (ReadItem.isStatement f) =
      (Spot.root body).all.countP fun c => c.statement.isVisible && f (stored p c.index).execCount := by
    refine countP_flatMap_eq fun c _ => ?_
    rw [Step.items, List.countP_singleton, ReadItem.isStatement, Bool.toNat, Bool.cond_eq_ite]
  have hbranches : (body.branchUnits.flatMap fun b => Step.items p (.branch b)).countP (ReadItem.isStatement f) =
      body.branchUnits.countP fun _ => false := by
    refine countP_flatMap_eq fun b _ => ?_
    cases b with
    | list start list => rfl
    | implicitElse outer taken =>
      rw [Step.items, implicitElseItems]
      split_ifs <;> rfl
  rw [(items_perm p body).countP_eq, List.countP_append, hread, hbranches, zipIdx_preorder, List.countP_map]
  simp [Function.comp_def]

/-- An implicit ELSE belongs to an IF without an ELSE, and to its branches. -/
theorem exists_of_implicitElse_mem {outer : Nat} {taken : List (List Statement)}
    (h : .implicitElse outer taken ∈ body.branchUnits) :
    ∃ s, body.preorder[outer]? = some s ∧ s.lacksElse = true ∧
      ∀ p, branchExecs p outer s = entriesSum p (outer + 1) taken := by
  have hlist : ∀ i lists, .implicitElse outer taken ∉ listBranches i lists := by
    intro i lists
    induction lists generalizing i with
    | nil => simp [listBranches]
    | cons list lists ih => simp [listBranches, ih]
  obtain ⟨x, hx, hb⟩ := List.mem_flatMap.1 h
  obtain ⟨s, k⟩ := x
  have hs := List.mem_zipIdx_iff_getElem?.1 hx
  cases s with
  | cond site thenBody elsifs elseBody =>
    cases elseBody with
    | none =>
      simp only [branches, List.mem_append, hlist, false_or, List.mem_singleton, Branch.implicitElse.injEq] at hb
      obtain ⟨rfl, rfl⟩ := hb
      exact ⟨_, hs, rfl, fun _ => rfl⟩
    | some elseBody => exact absurd hb (hlist _ _)
  | block | simple => cases hb
  | choice | loop => exact absurd hb (hlist _ _)

/-- Each IF without an ELSE has one implicit ELSE. -/
theorem countP_overrun (p : Profile) (body : Statement) :
    body.branchUnits.countP (fun b => decide (b.Overrun p)) =
      body.preorder.zipIdx.countP fun x => x.1.lacksElse && decide (exec p x.2 < branchExecs p x.2 x.1) := by
  have hlists : ∀ i lists, (listBranches i lists).countP (fun b => decide (b.Overrun p)) = 0 := by
    intro i lists
    induction lists generalizing i with
    | nil => rfl
    | cons list lists ih => rw [listBranches, List.countP_cons_of_neg (by simp), ih]
  refine countP_flatMap_eq fun x _ => ?_
  obtain ⟨s, k⟩ := x
  cases s with
  | cond site thenBody elsifs elseBody =>
    cases elseBody with
    | none =>
      rw [branches, List.countP_append, hlists, Nat.zero_add, List.countP_singleton]
      by_cases h : exec p k < entriesSum p (k + 1) (thenBody :: elsifs) <;> simp [lacksElse, branchExecs, h]
    | some elseBody => exact hlists _ _
  | block | simple => rfl
  | choice | loop => exact hlists _ _

section Fitting

variable (hfits : Fits p body)
include hfits

/-- What is passed at a branch of the tree. -/
theorem items_branch_of_fits {b : Branch} (hb : b ∈ body.branchUnits) :
    Step.items p (.branch b) =
      (if b.Overrun p then [.overrun] else []) ++ [.branch (UInt64.ofNat (b.execs p))] := by
  refine items_branch fun outer taken hb' => ?_
  obtain ⟨s, hs, -, hsum⟩ := exists_of_implicitElse_mem (hb' ▸ hb)
  rw [← hsum]
  exact hfits outer s hs

theorem countP_isBranch (f : Counter → Bool) :
    ((Spot.root body).steps.flatMap (Step.items p)).countP (ReadItem.isBranch f) =
      body.branchUnits.countP fun b => f (UInt64.ofNat (b.execs p)) := by
  have hread : ((Spot.root body).all.flatMap fun c => Step.items p (.read c)).countP (ReadItem.isBranch f) =
      (Spot.root body).all.countP fun _ => false := countP_flatMap_eq fun c _ => rfl
  have hbranches : (body.branchUnits.flatMap fun b => Step.items p (.branch b)).countP (ReadItem.isBranch f) =
      body.branchUnits.countP fun b => f (UInt64.ofNat (b.execs p)) := by
    refine countP_flatMap_eq fun b hb => ?_
    rw [items_branch_of_fits hfits hb, List.countP_append, List.countP_singleton]
    split_ifs <;> simp_all [ReadItem.isBranch]
  rw [(items_perm p body).countP_eq, List.countP_append, hread, hbranches]
  simp

theorem countP_isOverrun :
    ((Spot.root body).steps.flatMap (Step.items p)).countP ReadItem.isOverrun =
      body.preorder.zipIdx.countP fun x => x.1.lacksElse && decide (exec p x.2 < branchExecs p x.2 x.1) := by
  have hread : ((Spot.root body).all.flatMap fun c => Step.items p (.read c)).countP ReadItem.isOverrun =
      (Spot.root body).all.countP fun _ => false := countP_flatMap_eq fun c _ => rfl
  have hbranches : (body.branchUnits.flatMap fun b => Step.items p (.branch b)).countP ReadItem.isOverrun =
      body.branchUnits.countP fun b => decide (b.Overrun p) := by
    refine countP_flatMap_eq fun b hb => ?_
    rw [items_branch_of_fits hfits hb, List.countP_append]
    split_ifs with h <;> simp [ReadItem.isOverrun, h]
  rw [(items_perm p body).countP_eq, List.countP_append, hread, hbranches, countP_overrun]
  simp

/-- What is counted of a whole walk is the coverage of the tree. -/
theorem foldl_addItem_items :
    ((Spot.root body).steps.flatMap (Step.items p)).foldl CoverageCounts.addItem .zero = Coverage.ofTree p body := by
  have hexec : ∀ i, 0 < (stored p i).execCount ↔ 0 < exec p i := by
    intro i
    rw [exec_eq, UInt64.lt_iff_toNat_lt]
    rfl
  have htaken : ∀ b : Branch, 0 < UInt64.ofNat (b.execs p) ↔ b.Executed p := by
    intro b
    rw [UInt64.lt_iff_toNat_lt, UInt64.toNat_ofNat_of_lt' (b.execs_lt p)]
    exact Branch.execs_pos_iff
  rw [CoverageCounts.foldl_addItem, countP_isStatement, countP_isStatement, countP_isBranch hfits,
    countP_isBranch hfits, countP_isOverrun hfits]
  simp only [CoverageCounts.zero, Coverage.ofTree, hexec, htaken, Bool.and_true, countP_isVisible_zipIdx, Nat.zero_add,
    List.countP_true]

end Fitting

end Reading

theorem exists_of_list_mem_listBranches {outer i start : Nat} {before : List (List Statement)}
    {arms : List (Arm × List Statement)} {list : List Statement}
    (h : .list start list ∈ listBranches i (arms.map Prod.snd)) :
    ∃ a ∈ armSpots outer i before arms, a.start = start ∧ a.list = list := by
  induction arms generalizing i before with
  | nil => cases h
  | cons a arms ih =>
    rcases List.mem_cons.1 h with h | h
    · cases h
      exact ⟨_, List.mem_cons_self, rfl, rfl⟩
    · obtain ⟨b, hb, hstart⟩ := ih h
      exact ⟨b, List.mem_cons_of_mem _ hb, hstart⟩

/-- The lists among the branches of a statement are lists of its arms. -/
theorem Spot.exists_of_list_mem {c : Spot} {start : Nat} {list : List Statement}
    (h : .list start list ∈ c.statement.branches c.index) : ∃ a ∈ c.arms, a.start = start ∧ a.list = list := by
  obtain ⟨index, parent, position, s⟩ := c
  refine exists_of_list_mem_listBranches ?_
  cases s with
  | cond site thenBody elsifs elseBody =>
    cases elseBody <;> simpa [Statement.branches, Statement.arms, map_snd_numbered] using h
  | choice site whens elseBody =>
    cases elseBody <;> simpa [Statement.branches, Statement.arms, map_snd_numbered] using h
  | loop site kind body => exact h
  | block | simple => cases h

/-- A branch that is a list starts where its first statement is in the tree. -/
theorem Statement.getElem?_start {body : Statement} {start : Nat} {list : List Statement}
    (h : .list start list ∈ body.branchUnits) (hlist : list ≠ []) : body.preorder[start]? = list.head? := by
  rw [branchUnits_eq] at h
  obtain ⟨c, hc, h⟩ := List.mem_flatMap.1 h
  obtain ⟨a, ha, rfl, rfl⟩ := Spot.exists_of_list_mem h
  obtain ⟨s, rest, hs⟩ := List.exists_cons_of_ne_nil hlist
  have hspot : ⟨a.start, some ⟨a.outer, a.arm⟩, 1, s⟩ ∈ a.spots := by
    rw [ArmSpot.spots, hs]
    exact List.mem_cons_self
  rw [hs, List.head?_cons]
  exact Spot.getElem?_preorder_of_mem (Spot.inner_subset_all hc (Spot.mem_inner.2 ⟨a, ha, hspot⟩))

/-! ### Collecting -/

namespace Coverage

variable {proc : Procedure} {m : Numbering} {records : Option (List Record)} {report : CoverageReport}

/-- Whatever the numbering and the records are: what is collected is the coverage of the tree. -/
theorem counts_of_collect (h : collect proc m records = .ok report) :
    report.unitId = proc.unitId ∧ report.name = proc.name ∧
      report.counts = ofTree (Reading.profileOf proc m records) proc.body := by
  obtain ⟨c, hc, rfl⟩ := map_eq_ok_iff.1 h
  rw [counts_eq] at hc
  obtain ⟨items, hitems, rfl⟩ := map_eq_ok_iff.1 hc
  obtain ⟨hfits, hserved⟩ := Reading.exists_items_iff.1 ⟨items, hitems⟩
  rw [Reading.items, Reading.through, Reading.forM_eq_ok_iff_served.2 ⟨hfits, hserved⟩] at hitems
  cases hitems
  exact ⟨rfl, rfl, Reading.foldl_addItem_items hfits⟩

theorem exists_collect (hbuild : Numbering.build proc = .ok m) (hmatching : Reading.Matching proc.body records)
    (hfits : Reading.Fits (Reading.profileOf proc m records) proc.body) :
    ∃ report, collect proc m records = .ok report := by
  rw [collect, counts_eq, Reading.items_of_matching hbuild hmatching hfits]
  exact ⟨_, rfl⟩

theorem executed_le (p : Profile) (body : Statement) :
    (ofTree p body).executedStatements ≤ (ofTree p body).statements ∧
      (ofTree p body).executedBranches ≤ (ofTree p body).branches := by
  refine ⟨?_, List.countP_le_length⟩
  rw [ofTree, ← countP_isVisible_zipIdx]
  exact List.countP_mono_left fun x _ hx => (Bool.and_eq_true_iff.1 hx).1

/-- **Coverage is what its definition says.**  From records that match the tree of a copy, or from none, the coverage of
the tree is collected: its visible statements and its branches, and those of them that were executed.  A list that is a
branch starts at its first statement.  How many statements and branches there are is the same for all records and
numberings from which anything is collected, and no more of them are executed. -/
theorem collect_by_definition (hbuild : Numbering.build proc = .ok m)
    (hmatching : Reading.Matching proc.body records)
    (hfits : Reading.Fits (Reading.profileOf proc m records) proc.body) :
    ∃ report, collect proc m records = .ok report ∧ report.unitId = proc.unitId ∧ report.name = proc.name ∧
      report.counts = ofTree (Reading.profileOf proc m records) proc.body ∧
      (∀ start list, .list start list ∈ proc.body.branchUnits → list ≠ [] →
        proc.body.preorder[start]? = list.head?) ∧
      (∀ m' records' report', collect proc m' records' = .ok report' →
        report'.counts.statements = report.counts.statements ∧ report'.counts.branches = report.counts.branches) ∧
      report.counts.executedStatements ≤ report.counts.statements ∧
      report.counts.executedBranches ≤ report.counts.branches := by
  obtain ⟨report, hreport⟩ := exists_collect hbuild hmatching hfits
  obtain ⟨hunit, hname, hcounts⟩ := counts_of_collect hreport
  refine ⟨report, hreport, hunit, hname, hcounts, fun start list => getElem?_start, ?_, ?_⟩
  · intro m' records' report' hreport'
    rw [(counts_of_collect hreport').2.2, hcounts]
    exact ⟨rfl, rfl⟩
  · rw [hcounts]
    exact executed_le _ _

/-- The branches of the IF were taken more often than the IF was executed, its empty ELSIF and the loop never. -/
theorem collect_by_definition_branching :
    Numbering.build branching = .ok branchingNumbering ∧
      Reading.Matching branching.body (some (branchingRecords [1, 8, 8, 4, 5, 1, 8, 0, 8])) ∧
      ∃ report, collect branching branchingNumbering (some (branchingRecords [1, 8, 8, 4, 5, 1, 8, 0, 8])) =
          .ok report ∧ report.counts = ⟨8, 7, 5, 2, 1⟩ := by
  have hbuild : Numbering.build branching = .ok branchingNumbering := rfl
  have hmatching : Reading.Matching branching.body (some (branchingRecords [1, 8, 8, 4, 5, 1, 8, 0, 8])) :=
    Reading.matching_of_lines (by decide)
  obtain ⟨report, hreport, -, -, hcounts, -⟩ := collect_by_definition hbuild hmatching (by decide)
  refine ⟨hbuild, hmatching, report, hreport, ?_⟩
  rw [hcounts]
  decide

end Coverage

end ProcProfile
