import Mathlib.Tactic
import ProcProfile.Proofs.Coverage
import ProcProfile.Proofs.Record

/-!
# Coverage of merged profiles

Merging adds up the executions of each statement.  An implicit ELSE is taken as often as its IF was executed more than
its branches were taken, so it would be lost in a sum if in one of the profiles the branches were taken more often than
the IF.  In consistent profiles they never are, and a merge of consistent profiles is consistent: what is executed in
it was executed in one of the two, statements and branches alike.

* `Coverage.Consistent`: no IF without an ELSE was executed less often than its branches were taken;
* `Coverage.Added`: on a tree, one profile holds the sums of two others;
* `Coverage.Added.consistent`, `Coverage.Added.executed_iff`: what follows for the tree and its branches;
* `CoverageCounts.Joins`: the counts of a merge beside those of its parts;
* `Coverage.executed_of_merged`: coverage only grows with consistent calls.
-/

namespace ProcProfile

open Statement Reading

/-- Counts over one tree, of which the first are those of a profile merged from the profiles of the others. -/
structure CoverageCounts.Joins (q p c : CoverageCounts) : Prop where
  anomalies : q.anomalies = 0
  statements : q.statements = p.statements ∧ q.statements = c.statements
  branches : q.branches = p.branches ∧ q.branches = c.branches
  statements_ge : p.executedStatements ≤ q.executedStatements ∧ c.executedStatements ≤ q.executedStatements
  statements_le : q.executedStatements ≤ p.executedStatements + c.executedStatements
  branches_ge : p.executedBranches ≤ q.executedBranches ∧ c.executedBranches ≤ q.executedBranches
  branches_le : q.executedBranches ≤ p.executedBranches + c.executedBranches

/-- What is counted is counted on one of two sides, and counted at most once for each. -/
theorem countP_of_iff_or {α : Type} {l : List α} {f g h : α → Bool}
    (hor : ∀ a ∈ l, h a = true ↔ f a = true ∨ g a = true) :
    (l.countP f ≤ l.countP h ∧ l.countP g ≤ l.countP h) ∧ l.countP h ≤ l.countP f + l.countP g := by
  refine ⟨⟨List.countP_mono_left fun a ha hf => (hor a ha).2 (.inl hf),
    List.countP_mono_left fun a ha hg => (hor a ha).2 (.inr hg)⟩, ?_⟩
  induction l with
  | nil => simp
  | cons a l ih =>
    have ha := hor a List.mem_cons_self
    have hrest := ih fun b hb => hor b (List.mem_cons_of_mem _ hb)
    simp only [List.countP_cons]
    split_ifs <;> first | omega | simp_all

/-- Lists are entered as often as in both together, if their statements are executed so. -/
theorem Reading.entriesSum_add {q p c : Profile} {i : Nat} {lists : List (List Statement)}
    (h : ∀ j, i ≤ j → j < i + counts lists.flatten → exec q j = exec p j + exec c j) :
    entriesSum q i lists = entriesSum p i lists + entriesSum c i lists := by
  induction lists generalizing i with
  | nil => rfl
  | cons list lists ih =>
    rw [List.flatten_cons, counts_append] at h
    have hrest : entriesSum q (i + counts list) lists = _ := ih fun j hj hj' => h j (by omega) (by omega)
    have hfirst : entries q i list = entries p i list + entries c i list := by
      cases list with
      | nil => rfl
      | cons s list =>
        have hs := s.count_pos
        exact h i le_rfl (by rw [counts_cons]; omega)
    simp only [entriesSum, hfirst, hrest]
    omega

namespace Coverage

/-- No IF without an ELSE was executed less often than its branches were taken. -/
def Consistent (p : Profile) (body : Statement) : Prop :=
  ∀ k s, body.preorder[k]? = some s → s.lacksElse = true → branchExecs p k s ≤ exec p k

instance (p : Profile) (body : Statement) : Decidable (Consistent p body) :=
  decidable_of_iff (∀ x ∈ body.preorder.zipIdx, x.1.lacksElse = true → branchExecs p x.2 x.1 ≤ exec p x.2)
    ⟨fun h k s hs => h (s, k) (List.mem_zipIdx_iff_getElem?.2 hs),
      fun h x hx => h x.2 x.1 (List.mem_zipIdx_iff_getElem?.1 hx)⟩

/-- On a tree, the executions of one profile are those of two others together. -/
def Added (q p c : Profile) (body : Statement) : Prop := ∀ j < body.count, exec q j = exec p j + exec c j

namespace Added

variable {q p c : Profile} {body : Statement}

variable (hadded : Added q p c body)
include hadded

theorem branchExecs_eq {k : Nat} {s : Statement} (hs : body.preorder[k]? = some s) :
    branchExecs q k s = branchExecs p k s + branchExecs c k s := by
  have hend := add_count_le hs
  cases s with
  | cond site thenBody elsifs elseBody =>
    refine entriesSum_add fun j hj hj' => hadded j ?_
    rw [count_eq, nested_cond] at hend
    simp only [List.flatten_cons, counts_append] at hend hj'
    omega
  | block | choice | loop | simple => rfl

/-- Sums that fit in both together fit in each. -/
theorem fits (hfits : Fits q body) : Fits p body ∧ Fits c body := by
  refine ⟨fun k s hs => ?_, fun k s hs => ?_⟩ <;>
  · have hq := hfits k s hs
    rw [hadded.branchExecs_eq hs] at hq
    omega

variable (hp : Consistent p body) (hc : Consistent c body)
include hp hc

theorem consistent : Consistent q body := by
  intro k s hs hlacks
  have := hp k s hs hlacks
  have := hc k s hs hlacks
  rw [hadded.branchExecs_eq hs, hadded k (lt_count hs)]
  omega

/-- A branch is executed in both together if it is executed in one of them. -/
theorem executed_iff {b : Branch} (hb : b ∈ body.branchUnits) : b.Executed q ↔ b.Executed p ∨ b.Executed c := by
  cases b with
  | list start list =>
    simp only [Branch.Executed]
    by_cases hlist : list = []
    · simp [hlist]
    · obtain ⟨s, hs⟩ := Option.isSome_iff_exists.1 (List.isSome_head?.2 hlist)
      have hexec := hadded start (lt_count ((getElem?_start hb hlist).trans hs))
      simp only [ne_eq, hlist, not_false_eq_true, true_and]
      omega
  | implicitElse outer taken =>
    obtain ⟨s, hs, hlacks, hsum⟩ := exists_of_implicitElse_mem hb
    -- neither difference is cut off at zero, so their sum is the difference of the sums
    have hpsum := hp outer s hs hlacks
    have hcsum := hc outer s hs hlacks
    have hqsum := hadded.branchExecs_eq hs
    have hexec := hadded outer (lt_count hs)
    simp only [Branch.Executed, ← hsum]
    omega

/-- The coverage of both together beside the coverage of each. -/
theorem joins : (ofTree q body).Joins (ofTree p body) (ofTree c body) := by
  have hstatements := countP_of_iff_or (l := body.preorder.zipIdx)
    (f := fun x => x.1.isVisible && decide (0 < exec p x.2)) (g := fun x => x.1.isVisible && decide (0 < exec c x.2))
    (h := fun x => x.1.isVisible && decide (0 < exec q x.2)) <| by
      intro x hx
      have hexec := hadded x.2 (lt_count (List.mem_zipIdx_iff_getElem?.1 hx))
      cases x.1.isVisible with
      | false => simp
      | true =>
        simp only [Bool.true_and, decide_eq_true_eq]
        omega
  have hbranches := countP_of_iff_or (l := body.branchUnits) (f := fun b => decide (b.Executed p))
    (g := fun b => decide (b.Executed c)) (h := fun b => decide (b.Executed q)) <| by
      intro b hb
      simpa using hadded.executed_iff hp hc hb
  refine ⟨?_, ⟨rfl, rfl⟩, ⟨rfl, rfl⟩, hstatements.1, hstatements.2, hbranches.1, hbranches.2⟩
  refine List.countP_eq_zero.2 fun x hx => ?_
  have hconsistent := hadded.consistent hp hc x.2 x.1 (List.mem_zipIdx_iff_getElem?.1 hx)
  simpa using hconsistent

end Added

/-! ### Merged records -/

section Merged

variable {proc : Procedure} {m : Numbering} {stored call merged : List Record}

/-- Merged records match a tree that the records match. -/
theorem matching_mergeRecords {body : Statement} (hstored : Matching body (some stored))
    (hcall : Matching body (some call)) (hmerge : mergeRecords stored call = .ok merged) :
    Matching body (some merged) := by
  intro list hlist k s hs
  cases hlist
  obtain ⟨a, ha, hline⟩ := hstored stored rfl k s hs
  obtain ⟨b, hb, -⟩ := hcall call rfl k s hs
  obtain ⟨r, hr, hok⟩ := (mergeRecords_eq_ok_iff.1 hmerge).2 k a b ha hb
  exact ⟨r, hr, (Record.merge_eq_ok_iff.1 hok).2.2.2.2.2.1.trans hline⟩

/-- Merging adds up the executions of the statements. -/
theorem added_of_mergeRecords (hstored : Matching proc.body (some stored)) (hcall : Matching proc.body (some call))
    (hmerge : mergeRecords stored call = .ok merged) :
    Added (profileOf proc m (some merged)) (profileOf proc m (some stored)) (profileOf proc m (some call))
      proc.body := by
  intro j hj
  rw [← length_preorder] at hj
  have hs := List.getElem?_eq_getElem hj
  obtain ⟨a, ha, -⟩ := hstored stored rfl j _ hs
  obtain ⟨b, hb, -⟩ := hcall call rfl j _ hs
  obtain ⟨r, hr, hok⟩ := (mergeRecords_eq_ok_iff.1 hmerge).2 j a b ha hb
  have hexec := (Record.merge_eq_ok_iff.1 hok).2.2.1
  simpa [exec, ha, hb, hr] using hexec

/-- **Coverage only grows with consistent calls.**  In the merge of two consistent profiles of a copy, exactly those
statements and branches are executed that are executed in one of the two.  The three reports count the coverage of the
tree; that of the merge has no anomalies and the same totals, and counts at least as many as executed as that of each
and at most as many as both together. -/
theorem executed_of_merged (hbuild : Numbering.build proc = .ok m) (hstored : Matching proc.body (some stored))
    (hcall : Matching proc.body (some call)) (hpast : Consistent (profileOf proc m (some stored)) proc.body)
    (hnew : Consistent (profileOf proc m (some call)) proc.body) (hmerge : mergeRecords stored call = .ok merged)
    (hfits : Fits (profileOf proc m (some merged)) proc.body) :
    (∀ k s, proc.body.preorder[k]? = some s →
      (0 < exec (profileOf proc m (some merged)) k ↔
        0 < exec (profileOf proc m (some stored)) k ∨ 0 < exec (profileOf proc m (some call)) k)) ∧
    (∀ b ∈ proc.body.branchUnits, b.Executed (profileOf proc m (some merged)) ↔
      b.Executed (profileOf proc m (some stored)) ∨ b.Executed (profileOf proc m (some call))) ∧
    ∃ past new all, collect proc m (some stored) = .ok past ∧ collect proc m (some call) = .ok new ∧
      collect proc m (some merged) = .ok all ∧
      past.counts = ofTree (profileOf proc m (some stored)) proc.body ∧
      new.counts = ofTree (profileOf proc m (some call)) proc.body ∧
      all.counts = ofTree (profileOf proc m (some merged)) proc.body ∧
      all.counts.Joins past.counts new.counts := by
  have hadded : Added _ (profileOf proc m (some stored)) (profileOf proc m (some call)) proc.body :=
    added_of_mergeRecords hstored hcall hmerge
  obtain ⟨hfitsPast, hfitsNew⟩ := hadded.fits hfits
  obtain ⟨past, hpastReport⟩ := exists_collect hbuild hstored hfitsPast
  obtain ⟨new, hnewReport⟩ := exists_collect hbuild hcall hfitsNew
  obtain ⟨all, hallReport⟩ := exists_collect hbuild (matching_mergeRecords hstored hcall hmerge) hfits
  have hpastCounts := (counts_of_collect hpastReport).2.2
  have hnewCounts := (counts_of_collect hnewReport).2.2
  have hallCounts := (counts_of_collect hallReport).2.2
  refine ⟨fun k s hs => ?_, fun b hb => hadded.executed_iff hpast hnew hb, past, new, all, hpastReport, hnewReport,
    hallReport, hpastCounts, hnewCounts, hallCounts, ?_⟩
  · rw [hadded k (lt_count hs)]
    omega
  · rw [hpastCounts, hnewCounts, hallCounts]
    exact hadded.joins hpast hnew

/-- The second call took all its executions of the IF through its ELSIF, and was the first one inside the loop. -/
theorem executed_of_merged_branching :
    mergeRecords (branchingRecords [1, 8, 8, 8, 5, 1, 8, 0, 8]) (branchingRecords [1, 3, 3, 3, 0, 3, 3, 7, 3]) =
        .ok (branchingRecords [2, 11, 11, 11, 5, 4, 11, 7, 11]) ∧
      ∃ past new all,
        collect branching branchingNumbering (some (branchingRecords [1, 8, 8, 8, 5, 1, 8, 0, 8])) = .ok past ∧
        collect branching branchingNumbering (some (branchingRecords [1, 3, 3, 3, 0, 3, 3, 7, 3])) = .ok new ∧
        collect branching branchingNumbering (some (branchingRecords [2, 11, 11, 11, 5, 4, 11, 7, 11])) = .ok all ∧
        past.counts = ⟨8, 7, 5, 3, 0⟩ ∧
        new.counts = ⟨8, 7, 5, 2, 0⟩ ∧
        all.counts = ⟨8, 8, 5, 4, 0⟩ ∧
        all.counts.Joins past.counts new.counts := by
  have hmerge : mergeRecords (branchingRecords [1, 8, 8, 8, 5, 1, 8, 0, 8])
      (branchingRecords [1, 3, 3, 3, 0, 3, 3, 7, 3]) = .ok (branchingRecords [2, 11, 11, 11, 5, 4, 11, 7, 11]) := rfl
  have hbuild : Numbering.build branching = .ok branchingNumbering := rfl
  obtain ⟨past, new, all, hpast, hnew, hall, hpastCounts, hnewCounts, hallCounts, hjoins⟩ :=
    (executed_of_merged hbuild (matching_of_lines (by decide)) (matching_of_lines (by decide)) (by decide) (by decide)
      hmerge (by decide)).2.2
  exact ⟨hmerge, past, new, all, hpast, hnew, hall, hpastCounts.trans (by decide), hnewCounts.trans (by decide),
    hallCounts.trans (by decide), hjoins⟩

end Merged

end Coverage

end ProcProfile
