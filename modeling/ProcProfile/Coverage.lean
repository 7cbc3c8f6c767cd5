import ProcProfile.Fault
import ProcProfile.Procedure

/-!
# Coverage

Coverage counts the visible statements and the branches of a procedure, and how many of each were
executed.  An IF whose branches were taken more often than it was executed is counted as an anomaly.

Main definitions: `CoverageCounts`, `CoverageReport`.
-/

namespace ProcProfile

/-- Statements and branches, all and executed. -/
structure CoverageCounts where
  statements : Nat
  executedStatements : Nat
  branches : Nat
  executedBranches : Nat
  anomalies : Nat
  deriving DecidableEq, Repr

namespace CoverageCounts

def zero : CoverageCounts := ⟨0, 0, 0, 0, 0⟩

/-- Counts a statement. -/
def addStatement (c : CoverageCounts) (execCount : Counter) : CoverageCounts :=
  { c with
    statements := c.statements + 1
    executedStatements := if 0 < execCount then c.executedStatements + 1 else c.executedStatements }

/-- Counts a branch. -/
def addBranch (c : CoverageCounts) (execCount : Counter) : CoverageCounts :=
  { c with
    branches := c.branches + 1
    executedBranches := if 0 < execCount then c.executedBranches + 1 else c.executedBranches }

/-- The executed part; everything of nothing is covered. -/
def ratio (executed total : Nat) : Float :=
  if total = 0 then 1.0 else Float.ofNat executed / Float.ofNat total

def statementRatio (c : CoverageCounts) : Float := ratio c.executedStatements c.statements

def branchRatio (c : CoverageCounts) : Float := ratio c.executedBranches c.branches

end CoverageCounts

/-- The coverage of one procedure. -/
structure CoverageReport where
  unitId : UInt32
  name : String
  counts : CoverageCounts
  statementRatio : Float
  branchRatio : Float

/-- The coverage of a procedure with these counts. -/
def CoverageReport.ofCounts (p : Procedure) (c : CoverageCounts) : CoverageReport :=
  ⟨p.unitId, p.name, c, c.statementRatio, c.branchRatio⟩

end ProcProfile
