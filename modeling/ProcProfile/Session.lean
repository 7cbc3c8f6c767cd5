import ProcProfile.Numbering.Cache
import ProcProfile.Reading
import ProcProfile.Reading.Lines
import ProcProfile.Region.Profiles
import ProcProfile.Region.Statistics
import ProcProfile.Tally.SelfTime

/-!
# Profiling sessions

An interpreter reports to a session when a procedure begins and ends and when each of its statements
does.  A call that runs keeps its own tally; at its end the tally is folded into the stored profile of
the incarnation, and the call is counted for the procedure.  A session reads stored profiles back along
the tree of a compiled copy.

The operations that touch stored data are operations on a region: they take the owner that acts and the
region, and say what they leave behind.

Main definitions: `Clock`, `Session`, `Call`, `Session.beginCall`, `Call.beginStatement`,
`Call.endStatement`, `Call.finish`, `Session.result`, `Session.coverage`, `Session.report`.
-/

namespace ProcProfile

/-- A clock that moves only when told to; it counts microseconds. -/
structure Clock where
  now : Counter

/-- Moves a clock on, past its last value if need be. -/
def Clock.advance (c : Clock) (delta : Counter) : Clock := ⟨c.now + delta⟩

/-- The state of a session beside its store. -/
structure Session where
  cache : NumberingCache
  enabled : Bool

/-- A new session profiles. -/
def Session.new : Session := ⟨NumberingCache.new, true⟩

/-- A profiled call that runs. -/
structure Call where
  procedure : Procedure
  numbering : Numbering
  tally : Tally

/-! ### Calls -/

/-- A procedure begins.  Nothing is profiled while the session is off, and anonymous blocks never are. -/
def Session.beginCall (s : Session) (p : Procedure) (now : Counter) :
    Session × Except (Stop WalkError) (Option Call) :=
  if !s.enabled || p.isAnonymous then (s, .ok none)
  else
    let (cache, numbering) := s.cache.buildOrGet p
    ({ s with cache := cache }, numbering.map fun m => some ⟨p, m, Tally.new m now⟩)

namespace Call

/-- A statement begins. -/
def beginStatement (c : Call) (s : Statement) (place : Place) (now : Counter) :
    Except (Stop WalkError) Call := do
  let id ← Stop.ofError (c.numbering.naturalId s place)
  let tally ← Stop.ofFault (c.tally.begin id now)
  return { c with tally := tally }

/-- A statement ends. -/
def endStatement (c : Call) (s : Statement) (place : Place) (now rows : Counter) (isError : Bool) :
    Except (Stop WalkError) Call := do
  let id ← Stop.ofError (c.numbering.naturalId s place)
  let tally ← Stop.ofFault (c.tally.finish id now rows isError)
  return { c with tally := tally }

/-- The records that a call leaves when it ends now. -/
def records (c : Call) (now : Counter) : Except Fault (Except WalkError (List Record)) := do
  let (tally, _) ← c.tally.closeOpen now
  let (time, tally) ← (tally.creditEntry now).fold c.numbering c.procedure
  return time.map fun _ => tally.toRecords

/-- A call ends: it is counted for its procedure, and its records are folded into the profile.  Each of
the two is tried whatever becomes of the other, and a failed fold is reported first. -/
def finish (c : Call) (now : Counter) (aborted : Bool) (o : Owner) (r : Region) :
    Except Fault (Access (Except ProfileError Unit)) := do
  match ← c.records now with
  | .error e => return .pure r (.error (.walk e))
  | .ok records =>
    let elapsed := Counter.since now c.tally.startedAt
    let counted ← r.recordCall o c.numbering.identity.unitKey elapsed aborted
    counted.andThen fun counted r => do
      let folded ← r.fold o c.numbering.identity records
      return folded.map fun
        | .error e => .error (.store e)
        | .ok () => counted.mapError .store

end Call

namespace Session

/-! ### Removing -/

/-- A procedure has changed: its numberings and its stored profiles go, and the number of chunks removed
is told.  Without a procedure all numberings go, and their number is told. -/
def invalidate (s : Session) (unit : Option UnitKey) (r : Region) :
    Except Fault (Session × Region × Nat) := do
  let (cache, dropped) := s.cache.invalidate unit
  let s := { s with cache := cache }
  match unit with
  | none => return (s, r, dropped)
  | some key =>
    let (r, removed) ← r.reset (.unit key)
    return (s, r, removed)

end Session

/-- Removes call statistics and chunks of a scope; a single incarnation has no call statistics of its
own.  The number of chunks removed is told. -/
def Region.resetAll (r : Region) (scope : ResetScope) : Except Fault (Region × Nat) :=
  let r :=
    match scope with
    | .all => (r.resetStats none).1
    | .unit key => (r.resetStats (some key)).1
    | .incarnation _ => r
  r.reset scope

namespace Session

/-! ### Reading -/

/-- The numbering of a copy and the stored records of its incarnation. -/
def load (s : Session) (p : Procedure) (o : Owner) (r : Region) :
    Except Fault (Session × Access (Except WalkError (Numbering × Option (List Record)))) :=
  let (cache, numbering) := s.cache.buildOrGet p
  let s := { s with cache := cache }
  match numbering with
  | .error (.error e) => .ok (s, .pure r (.error e))
  | .error (.fault f) => .error f
  | .ok m => do
    let stored ← r.readRecords o m.identity
    return (s, stored.map fun records => .ok (m, records))

/-- Reads something off the stored profile of a copy. -/
def readWith {α : Type} (s : Session) (p : Procedure) (o : Owner) (r : Region)
    (f : Numbering → Option (List Record) → Except (Stop WalkError) α) :
    Except Fault (Session × Access (Except WalkError α)) := do
  let (s, stored) ← s.load p o r
  match stored.answer with
  | .error e => return (s, stored.map fun _ => .error e)
  | .ok (m, records) =>
    match f m records with
    | .ok a => return (s, stored.map fun _ => .ok a)
    | .error (.error e) => return (s, stored.map fun _ => .error e)
    | .error (.fault f) => .error f

/-- The result rows of a copy. -/
def result (s : Session) (p : Procedure) (o : Owner) (r : Region) :
    Except Fault (Session × Access (Except WalkError (List StatementRow))) :=
  s.readWith p o r (resultRows p)

/-- The result rows of a copy gathered by the lines of its source. -/
def lineProfile (s : Session) (p : Procedure) (source : String) (o : Owner) (r : Region) :
    Except Fault (Session × Access (Except WalkError (List LineRow))) :=
  s.readWith p o r fun m records => do
    let rows ← resultRows p m records
    Stop.ofFault (ProcProfile.lineProfile rows source)

/-- The coverage of a copy. -/
def coverage (s : Session) (p : Procedure) (o : Owner) (r : Region) :
    Except Fault (Session × Access (Except WalkError CoverageReport)) :=
  s.readWith p o r (Coverage.collect p)

end Session

/-- Everything known about one incarnation. -/
structure Report where
  version : String
  generatedAt : String
  unitId : UInt32
  ownerDb : UInt32
  name : String
  statements : List StatementRow
  /-- Present if the source was given. -/
  lines : List LineRow
  coverage : CoverageReport
  /-- Absent if the procedure never finished a profiled call. -/
  summary : Option UnitSummary

/-- The form of reports and dumps that this library writes. -/
def reportVersion : String := "1.0.0"

/-- Rows, lines, coverage and call statistics of a copy in one document. -/
def Session.report (s : Session) (p : Procedure) (source : Option String) (generatedAt : String)
    (o : Owner) (r : Region) : Except Fault (Session × Access (Except WalkError Report)) := do
  let (s, parts) ← s.readWith p o r fun m records => do
    let rows ← resultRows p m records
    let lines ←
      match source with
      | none => pure []
      | some source => Stop.ofFault (ProcProfile.lineProfile rows source)
    let coverage ← Coverage.collect p m records
    return (rows, lines, coverage)
  let report ← parts.andThen fun parts r => do
    match parts with
    | .error e => return .pure r (.error e)
    | .ok (rows, lines, coverage) =>
      let summary ← r.summary? o p.unitKey
      return summary.map fun summary => .ok
        { version := reportVersion
          generatedAt := generatedAt
          unitId := p.unitId
          ownerDb := p.ownerDb
          name := p.name
          statements := rows
          lines := lines
          coverage := coverage
          summary := summary }
  return (s, report)

end ProcProfile
