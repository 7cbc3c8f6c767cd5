import ProcProfile.Coverage
import ProcProfile.Numbering
import ProcProfile.Reading.Rows

/-!
# Reading a stored profile along a tree

Stored records are read in the order in which the tree is walked: the record at position `i` has to
belong to the `i`-th statement in pre-order, by its natural id and by its line.  An incarnation that
was never profiled has no records, and each of its statements reads as not executed.

A profile is read for its rows or for its coverage.  Both walks descend alike; they differ in what they do at a
statement and at a branch.

Main definitions: `Profile`, `Reader`, `Reader.enter`, `Reader.visit`, `resultRows`, `Coverage.collect`.
-/

namespace ProcProfile

/-- What is read: how statements are recognised, where those of the tree that is walked live, and the stored
records. -/
structure Profile where
  numbering : Numbering
  places : Nat → Place
  records : Option (Array Record)

/-- The stored record with a natural id, which has to be the `i`-th that is asked for and of the line of the
statement.  Without stored records there is none. -/
def Profile.next (p : Profile) (i naturalId : Nat) (s : Statement) : Except WalkError (Option Record) :=
  if i ≠ naturalId then .error (.cursorDesync naturalId i)
  else
    match p.records with
    | none => .ok none
    | some records =>
      match records[naturalId]? with
      | none => .error (.cursorExhausted naturalId)
      | some record =>
        if record.line ≠ s.line then .error (.staleRecord naturalId s.line record.line) else .ok (some record)

/-- What a walk has made of a profile so far. -/
inductive Reader where
  /-- The rows of the visible statements, the last one in front. -/
  | rows (rows : List StatementRow)
  /-- The counts of visible statements and branches. -/
  | coverage (counts : CoverageCounts)

namespace Reader

/-- What entering a statement gives: its natural id, how often it was executed, and the reader after it. -/
structure Entered where
  naturalId : Nat
  execCount : Counter
  reader : Reader

/-- Enters the `i`-th statement of the tree, which stands at `position` of an arm of `parent`. -/
def enter (p : Profile) (i : Nat) (parent : Option Enclosing) (position : Nat) (s : Statement) :
    Reader → Except WalkError Entered
  | .rows made => do
    let id ← p.numbering.naturalId s (p.places i)
    let record := (← p.next i id s).getD .unused
    return ⟨id, record.execCount, .rows (if s.isVisible then s.row id parent position record :: made else made)⟩
  | .coverage counts => do
    let id ← p.numbering.naturalId s (p.places i)
    let execCount := (← p.next i id s).elim 0 Record.execCount
    return ⟨id, execCount, .coverage (if s.isVisible then counts.addStatement execCount else counts)⟩

/-- Passes a branch that was taken so often.  Rows have no branches. -/
def branch (execCount : Counter) : Reader → Reader
  | .rows made => .rows made
  | .coverage counts => .coverage (counts.addBranch execCount)

/-- How often an IF took the branch that it has without an else, and the reader after it: that is the executions
that took none of its `taken` branches, if they are not more than all. -/
def implicitElse (execCount taken : Counter) : Reader → Counter × Reader
  | .rows made => (0, .rows made)
  | .coverage counts =>
    if taken ≤ execCount then (execCount - taken, .coverage counts)
    else (0, .coverage { counts with anomalies := counts.anomalies + 1 })

/-- What a visit gives: the position after it in pre-order, how often the statement (or the first
statement of a list) was executed, and the reader after it. -/
structure Visited where
  next : Nat
  execCount : Counter
  reader : Reader

variable (p : Profile)

mutual

/-- Visits the `i`-th statement of the tree, which stands at `position` of an arm of `parent`. -/
def visit (reader : Reader) (i : Nat) (parent : Option Enclosing) (position : Nat) (s : Statement) :
    Except (Stop WalkError) Visited := do
  let ⟨id, execCount, reader⟩ ← Stop.ofError (reader.enter p i parent position s)
  match s with
  | .block _ _ body handlers =>
    let inBody ← visitList reader (i + 1) ⟨id, .body⟩ body
    let (next, reader) ← visitArms inBody.reader inBody.next id .handler false 1 handlers
    return ⟨next, execCount, reader⟩
  | .cond _ thenBody elsifs elseBody =>
    let inThen ← visitList reader (i + 1) ⟨id, .thenBody⟩ thenBody
    let (next, taken, reader) ←
      visitElsifs (inThen.reader.branch inThen.execCount) inThen.next id inThen.execCount 1 elsifs
    match elseBody with
    | none =>
      let (implicit, reader) := reader.implicitElse execCount taken
      return ⟨next, execCount, reader.branch implicit⟩
    | some elseBody =>
      let inElse ← visitList reader next ⟨id, .elseBody⟩ elseBody
      return ⟨inElse.next, execCount, inElse.reader.branch inElse.execCount⟩
  | .choice _ whens elseBody =>
    let (next, reader) ← visitArms reader (i + 1) id .caseWhen true 1 whens
    match elseBody with
    | none => return ⟨next, execCount, reader⟩
    | some elseBody =>
      let inElse ← visitList reader next ⟨id, .caseElse⟩ elseBody
      return ⟨inElse.next, execCount, inElse.reader.branch inElse.execCount⟩
  | .loop _ _ body =>
    let inBody ← visitList reader (i + 1) ⟨id, .loopBody⟩ body
    return ⟨inBody.next, execCount, inBody.reader.branch inBody.execCount⟩
  | .simple .. => return ⟨i + 1, execCount, reader⟩

/-- Visits the statements of an arm. -/
def visitList (reader : Reader) (i : Nat) (parent : Enclosing) :
    List Statement → Except (Stop WalkError) Visited
  | [] => return ⟨i, 0, reader⟩
  | s :: rest => do
    let head ← visit reader i (some parent) 1 s
    let (next, reader) ← visitRest head.reader head.next parent 2 rest
    return ⟨next, head.execCount, reader⟩

/-- Visits the statements of an arm from `position` on. -/
def visitRest (reader : Reader) (i : Nat) (parent : Enclosing) (position : Nat) :
    List Statement → Except (Stop WalkError) (Nat × Reader)
  | [] => return (i, reader)
  | s :: rest => do
    let head ← visit reader i (some parent) position s
    visitRest head.reader head.next parent (position + 1) rest

/-- Visits the numbered arms of statement `id`, each of them a branch if `isBranch`. -/
def visitArms (reader : Reader) (i id : Nat) (arm : Nat → Arm) (isBranch : Bool)
    (number : Nat) : List (List Statement) → Except (Stop WalkError) (Nat × Reader)
  | [] => return (i, reader)
  | list :: rest => do
    let head ← visitList reader i ⟨id, arm number⟩ list
    let reader := if isBranch then head.reader.branch head.execCount else head.reader
    visitArms reader head.next id arm isBranch (number + 1) rest

/-- Visits the elsif arms of statement `id`, adding how often each was taken to `taken`. -/
def visitElsifs (reader : Reader) (i id : Nat) (taken : Counter) (number : Nat) :
    List (List Statement) → Except (Stop WalkError) (Nat × Counter × Reader)
  | [] => return (i, taken, reader)
  | list :: rest => do
    let head ← visitList reader i ⟨id, .elsif number⟩ list
    let taken ← Stop.ofFault (Counter.add taken head.execCount)
    visitElsifs (head.reader.branch head.execCount) head.next id taken (number + 1) rest

end

/-- Reads the stored profile of a copy along its tree. -/
def read (reader : Reader) (proc : Procedure) (m : Numbering) (records : Option (List Record)) :
    Except (Stop WalkError) Reader :=
  Visited.reader <$> visit ⟨m, proc.places, records.map List.toArray⟩ reader 0 none 1 proc.body

/-- The rows that were read, in the order of the walk. -/
def toRows : Reader → List StatementRow
  | .rows made => made.reverse
  | .coverage _ => []

/-- The counts that were read. -/
def toCounts : Reader → CoverageCounts
  | .rows _ => .zero
  | .coverage counts => counts

end Reader

/-- The rows of an incarnation, from its stored records or, if it was never profiled, without counts. -/
def resultRows (p : Procedure) (m : Numbering) (records : Option (List Record)) :
    Except (Stop WalkError) (List StatementRow) :=
  Reader.toRows <$> Reader.read (.rows []) p m records

namespace Coverage

/-- The counts of an incarnation. -/
def counts (p : Procedure) (m : Numbering) (records : Option (List Record)) :
    Except (Stop WalkError) CoverageCounts :=
  Reader.toCounts <$> Reader.read (.coverage .zero) p m records

/-- The coverage of an incarnation, from its stored records or, if it was never profiled, of nothing
executed. -/
def collect (p : Procedure) (m : Numbering) (records : Option (List Record)) :
    Except (Stop WalkError) CoverageReport :=
  CoverageReport.ofCounts p <$> counts p m records

end Coverage

end ProcProfile
