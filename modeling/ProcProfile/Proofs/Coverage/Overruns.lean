import Mathlib.Tactic
import ProcProfile.Proofs.Coverage

/-!
# Counts that contradict each other

Stored counts are what was added up over many calls, and nothing keeps the branches of an IF from having been taken more
often than the IF itself was executed.  Rows and coverage are given all the same: the implicit ELSE is then taken not
at all, and the IF is noted.  But what the branches were taken together is counted in a word, along every chain of
ELSIFs and also where an ELSE makes the sum useless.  If a sum does not fit, there are neither rows nor coverage.

* `Reading.fits_of_no_elsif`: only chains of ELSIFs can have such a sum;
* `Reading.items_eq_fault`: with such a sum, nothing is read;
* `Reading.infix_items_of_lacksElse`: what is passed at the end of an IF without an ELSE;
* `Reading.readings_given_iff_fits`: what becomes of rows and coverage, whatever the counts are.
-/

namespace ProcProfile

open Statement

/-- An IF with a further condition. -/
def Statement.hasElsif : Statement → Bool
  | .cond _ _ elsifs _ => !elsifs.isEmpty
  | .block .. | .choice .. | .loop .. | .simple .. => false

namespace Reading

variable {p : Profile} {body : Statement}

/-- One branch alone is not taken too often. -/
theorem fits_of_no_elsif (h : ∀ s ∈ body.preorder, s.hasElsif = false) : Fits p body := by
  rw [fits_iff]
  rintro i ⟨k, site, thenBody, elsifs, elseBody, hs, n, hn, -, -⟩
  have hnone := h _ (List.mem_of_getElem? hs)
  rw [hasElsif, Bool.not_eq_false', List.isEmpty_iff] at hnone
  rw [hnone] at hn
  exact Nat.not_lt_zero n hn

/-- An IF without an ELSE has an implicit one, which a walk comes to after all its branches. -/
theorem exists_implicitElse {k : Nat} {s : Statement} (hs : body.preorder[k]? = some s) (helse : s.lacksElse = true) :
    ∃ taken, .branch (.implicitElse k taken) ∈ (Spot.root body).steps ∧ .implicitElse k taken ∈ body.branchUnits ∧
      ∀ p, branchExecs p k s = entriesSum p (k + 1) taken := by
  cases s with
  | cond site thenBody elsifs elseBody =>
    cases elseBody with
    | none =>
      refine ⟨thenBody :: elsifs, ?_, ?_, fun _ => rfl⟩
      · obtain ⟨c, hc, rfl, hcond⟩ := Spot.exists_of_preorder hs
        refine Spot.mem_steps.2 ⟨c, hc, .inr (List.mem_append_right _ ?_)⟩
        rw [hcond]
        exact List.mem_singleton_self _
      · refine List.mem_flatMap.2 ⟨(_, k), List.mem_zipIdx_iff_getElem?.2 hs, ?_⟩
        exact List.mem_append_right _ (List.mem_singleton_self _)
    | some elseBody => cases helse
  | block | choice | loop | simple => cases helse

/-- At the end of an IF without an ELSE, its implicit ELSE is passed with the executions that are left; if there are
less than none, the IF is noted before. -/
theorem infix_items_of_lacksElse (hfits : Fits p body) {k : Nat} {s : Statement} (hs : body.preorder[k]? = some s)
    (helse : s.lacksElse = true) :
    (if exec p k < branchExecs p k s then [.overrun, .branch 0]
      else [.branch (UInt64.ofNat (exec p k - branchExecs p k s))]) <:+:
      (Spot.root body).steps.flatMap (Step.items p) := by
  obtain ⟨taken, hstep, hmem, hsum⟩ := exists_implicitElse hs helse
  have hitems := items_branch_of_fits hfits hmem
  obtain ⟨front, back, hsteps⟩ := List.append_of_mem hstep
  refine ⟨front.flatMap (Step.items p), back.flatMap (Step.items p), ?_⟩
  rw [hsteps, List.flatMap_append, List.flatMap_cons, hitems, Branch.execs, hsum p, List.append_assoc]
  split_ifs with hover hoverrun hoverrun
  · rw [Nat.sub_eq_zero_of_le hover.le]
    rfl
  · exact absurd hover hoverrun
  · exact absurd hoverrun hover
  · rfl

section Outcomes

variable {proc : Procedure} {m : Numbering} {records : Option (List Record)}

/-- A sum that does not fit stops every walk along records that match. -/
theorem items_eq_fault (hbuild : Numbering.build proc = .ok m) (hmatching : Matching proc.body records)
    (hlarge : ¬ Fits (profileOf proc m records) proc.body) :
    items proc m records = .error (.fault .addOverflow) := by
  rw [fits_iff, not_forall_not] at hlarge
  obtain ⟨i, hoverflow⟩ := hlarge
  exact items_eq_error_iff.2 (.fault hoverflow fun j s _ hs => served_of_matching hbuild hmatching hs)

/-- **Rows and coverage are given exactly if the sums fit.**  Whatever the counts of records are that match the tree of
a copy: if the branches of no IF were taken too often for their sum, which only a chain of ELSIFs can be, rows and
coverage are given, the IFs without an ELSE whose branches were taken more often than the IF was executed are counted as
anomalies, and the implicit ELSE of each of them as not taken.  Otherwise both stop at a sum. -/
theorem readings_given_iff_fits (hbuild : Numbering.build proc = .ok m) (hmatching : Matching proc.body records) :
    (Fits (profileOf proc m records) proc.body → ∃ rows report passed, resultRows proc m records = .ok rows ∧
      Coverage.collect proc m records = .ok report ∧ items proc m records = .ok passed ∧
      rows = passed.filterMap ReadItem.row? ∧ report.counts = passed.foldl CoverageCounts.addItem .zero ∧
      report.counts.anomalies = proc.body.preorder.zipIdx.countP (fun x => x.1.lacksElse &&
        decide (exec (profileOf proc m records) x.2 < branchExecs (profileOf proc m records) x.2 x.1)) ∧
      ∀ k s, proc.body.preorder[k]? = some s → s.lacksElse = true →
        (if exec (profileOf proc m records) k < branchExecs (profileOf proc m records) k s then
          [.overrun, .branch 0]
        else
          [.branch (UInt64.ofNat (exec (profileOf proc m records) k -
            branchExecs (profileOf proc m records) k s))]) <:+: passed) ∧
    (¬ Fits (profileOf proc m records) proc.body →
      resultRows proc m records = .error (.fault .addOverflow) ∧
      Coverage.collect proc m records = .error (.fault .addOverflow)) ∧
    ((∀ s ∈ proc.body.preorder, s.hasElsif = false) → Fits (profileOf proc m records) proc.body) := by
  refine ⟨fun hfits => ?_, fun hlarge => ?_, fits_of_no_elsif⟩
  · have hitems := items_of_matching hbuild hmatching hfits
    have hcounts := foldl_addItem_items hfits
    refine ⟨_, _, _, by rw [resultRows_eq, hitems]; rfl, by rw [Coverage.collect, Coverage.counts_eq, hitems]; rfl,
      hitems, rfl, rfl, ?_, fun k s hs helse => infix_items_of_lacksElse hfits hs helse⟩
    show CoverageCounts.anomalies (List.foldl _ _ _) = _
    rw [hcounts]
    rfl
  · have hstop := items_eq_fault hbuild hmatching hlarge
    exact ⟨resultRows_eq_error_iff.2 hstop, collect_eq_error_iff.2 hstop⟩

/-- The branches of the IF were taken six times, but the IF was executed four times. -/
theorem readings_given_iff_fits_branching :
    Numbering.build branching = .ok branchingNumbering ∧
      Matching branching.body (some (branchingRecords [1, 8, 8, 4, 5, 1, 8, 0, 8])) ∧
      ∃ report passed, Coverage.collect branching branchingNumbering
          (some (branchingRecords [1, 8, 8, 4, 5, 1, 8, 0, 8])) = .ok report ∧ report.counts.anomalies = 1 ∧
        items branching branchingNumbering (some (branchingRecords [1, 8, 8, 4, 5, 1, 8, 0, 8])) = .ok passed ∧
        [.overrun, .branch 0] <:+: passed := by
  have hbuild : Numbering.build branching = .ok branchingNumbering := rfl
  have hmatching : Matching branching.body (some (branchingRecords [1, 8, 8, 4, 5, 1, 8, 0, 8])) :=
    matching_of_lines (by decide)
  obtain ⟨-, report, passed, -, hreport, hpassed, -, -, hanomalies, hclamped⟩ :=
    (readings_given_iff_fits hbuild hmatching).1 (by decide)
  refine ⟨hbuild, hmatching, report, passed, hreport, ?_, hpassed, ?_⟩
  · rw [hanomalies]
    decide
  · have hcond := hclamped 3 _ rfl rfl
    rwa [if_pos (by decide)] at hcond

/-- Two counts that were stored for the branches of one IF keep all rows and all coverage from being given. -/
theorem chain_of_elsifs_stops :
    Numbering.build branching = .ok branchingNumbering ∧
      Matching branching.body (some (branchingRecords [1, 1, 1, 1, 0xffffffffffffffff, 1, 1, 1, 1])) ∧
      resultRows branching branchingNumbering
        (some (branchingRecords [1, 1, 1, 1, 0xffffffffffffffff, 1, 1, 1, 1])) = .error (.fault .addOverflow) ∧
      Coverage.collect branching branchingNumbering
        (some (branchingRecords [1, 1, 1, 1, 0xffffffffffffffff, 1, 1, 1, 1])) = .error (.fault .addOverflow) := by
  have hbuild : Numbering.build branching = .ok branchingNumbering := rfl
  have hmatching : Matching branching.body (some (branchingRecords [1, 1, 1, 1, 0xffffffffffffffff, 1, 1, 1, 1])) :=
    matching_of_lines (by decide)
  have hstop := items_eq_fault hbuild hmatching (by decide)
  exact ⟨hbuild, hmatching, resultRows_eq_error_iff.2 hstop, collect_eq_error_iff.2 hstop⟩

end Outcomes

end Reading

end ProcProfile
