import ProcProfile.Region.Lock

/-!
# Stored call statistics

Each procedure with a finished call has one slot of call statistics, which all of its incarnations
share.

Main definitions: `Region.recordCall`, `Region.summary?`, `Region.summaries`, `Region.resetStats`.
-/

namespace ProcProfile

/-- Summaries are ordered by database and unit. -/
def UnitSummary.before (a b : UnitSummary) : Bool :=
  if a.ownerDb ≠ b.ownerDb then a.ownerDb < b.ownerDb else a.unitId ≤ b.unitId

namespace Region

/-- Counts a finished call of a procedure. -/
def recordCall (r : Region) (o : Owner) (key : UnitKey) (elapsed : Counter) (isError : Bool) :
    Except Fault (Access (Except StoreError Unit)) :=
  match r.findUnit? key with
  | some i => r.withUnit o i fun r => do
    let stats ← (r.stats i).record elapsed isError
    return (r.writeStats i stats, .ok ())
  | none =>
    match r.insertUnit key with
    | (r, .error e) => .ok (.pure r (.error e))
    | (r, .ok i) => do
      let stats ← CallStats.zero.record elapsed isError
      return .pure (r.writeStats i stats) (.ok ())

/-- The call statistics of a procedure, if it has any. -/
def summary? (r : Region) (o : Owner) (key : UnitKey) :
    Except Fault (Access (Option UnitSummary)) :=
  match r.findUnit? key with
  | none => .ok (.pure r none)
  | some i => r.withUnit o i fun r => .ok (r, some ((r.stats i).summary key))

/-- The call statistics in some slots, in slot order. -/
def summariesAt (o : Owner) : List Nat → (r : Region) → Except Fault (Access (List UnitSummary))
  | [], r => .ok (.pure r [])
  | i :: rest, r => do
    let here ← r.withUnit o i fun r =>
      .ok (r, (r.units.get i).key?.map fun key => (r.stats i).summary key)
    here.andThen fun summary r => do
      let rest ← summariesAt o rest r
      return rest.map (summary.toList ++ ·)

/-- All call statistics, by database and unit. -/
def summaries (r : Region) (o : Owner) : Except Fault (Access (List UnitSummary)) := do
  let found ← summariesAt o (r.units.indices fun _ => true) r
  return found.map fun list => list.mergeSort UnitSummary.before

/-- The call statistics of the procedures of one database, by unit. -/
def summariesOf (r : Region) (o : Owner) (db : UInt32) : Except Fault (Access (List UnitSummary)) := do
  let found ← r.summaries o
  return found.map fun list => list.filter fun s => s.ownerDb == db

/-- Forgets the calls of one procedure, or of all; also says how many procedures that were. -/
def resetStats (r : Region) : Option UnitKey → Region × Nat
  | none => (r.clearUnits, r.header.unitsUsed.toNat)
  | some key =>
    match r.findUnit? key with
    | none => (r, 0)
    | some i => (r.removeUnit i, 1)

end Region

end ProcProfile
