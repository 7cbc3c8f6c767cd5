import ProcProfile.Record

/-!
# Result rows

A report has one row for each visible statement, in source order, with the place of the statement in
the tree and its counts.

Main definitions: `Enclosing`, `StatementRow`, `Statement.row`.
-/

namespace ProcProfile

/-- What leads from a statement to one inside it: the number of the outer statement and its arm. -/
structure Enclosing where
  naturalId : Nat
  arm : Arm
  deriving DecidableEq, Repr

/-- One visible statement of an incarnation, with its counts. -/
structure StatementRow where
  naturalId : Nat
  /-- The enclosing statement; the root has none. -/
  parentId : Option Nat
  /-- The arm of the enclosing statement. -/
  blockLabel : Option String
  /-- The position in that arm, from 1. -/
  blockNum : Nat
  line : Int32
  kind : String
  execCount : Counter
  errorCount : Counter
  /-- Self time. -/
  totalTime : Counter
  maxTime : Counter
  rows : Counter
  fingerprint : Option UInt64
  deriving DecidableEq, Repr

/-- The row of a statement at its 1-based position in an arm, with its stored counts. -/
def Statement.row (s : Statement) (naturalId : Nat) (parent : Option Enclosing) (position : Nat)
    (record : Record) : StatementRow where
  naturalId := naturalId
  parentId := parent.map Enclosing.naturalId
  blockLabel := parent.map fun e => e.arm.label
  blockNum := position
  line := s.line
  kind := s.typename
  execCount := record.execCount
  errorCount := record.errorCount
  totalTime := record.totalTime
  maxTime := record.maxTime
  rows := record.rows
  fingerprint := s.fingerprint

end ProcProfile
