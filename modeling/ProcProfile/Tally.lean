import ProcProfile.Numbering
import ProcProfile.Record

/-!
# Tally of one call

While a call runs, each of its statements has a timer and counts.  Running statements form a stack,
since a statement ends inside the one that began before it; an error may skip ends, so an end also
closes, as errors, what began later and still runs.  The stack holds at most 64 entries.  Statements
that begin while it is full still run their timers, and only their number is kept.

Times are inclusive here: the time of a nested statement is also time of the enclosing one.

Main definitions: `Tally`, `Tally.begin`, `Tally.finish`, `Tally.closeOpen`, `Tally.creditEntry`,
`Tally.toRecords`.
-/

namespace ProcProfile

/-- The timer and counts of one statement during one call. -/
structure Timer where
  line : Int32
  fingerprint : Option UInt64
  elapsed : Counter
  maxElapsed : Counter
  rows : Counter
  execCount : Counter
  errorCount : Counter
  /-- When the running execution began. -/
  startedAt : Option Counter
  deriving DecidableEq, Repr

namespace Timer

/-- A timer that has not run. -/
def ofLine (line : Int32) (fingerprint : Option UInt64) : Timer :=
  ⟨line, fingerprint, 0, 0, 0, 0, 0, none⟩

def isOpen (t : Timer) : Bool := t.startedAt.isSome

/-- Counts the execution that began at `startedAt` and ends now. -/
def stop (t : Timer) (startedAt now rows : Counter) (isError : Bool) : Except Fault Timer := do
  let time := Counter.since now startedAt
  let elapsed ← Counter.add t.elapsed time
  let rows ← Counter.add t.rows rows
  let execCount ← Counter.add t.execCount 1
  let errorCount ← if isError then Counter.add t.errorCount 1 else pure t.errorCount
  return { t with
    elapsed := elapsed
    maxElapsed := max t.maxElapsed time
    rows := rows
    execCount := execCount
    errorCount := errorCount
    startedAt := none }

/-- The counts as a record. -/
def toRecord (t : Timer) : Record :=
  { (Record.ofLine t.line).withFingerprint t.fingerprint with
    maxTime := t.maxElapsed
    totalTime := t.elapsed
    rows := t.rows
    execCount := t.execCount
    errorCount := t.errorCount }

end Timer

/-- How many running statements are kept in order. -/
def maxOpen : Nat := 64

/-- The timers of a call, by natural id. -/
structure Tally where
  timers : Array Timer
  /-- Running statements, the one that began last in front. -/
  stack : List Nat
  /-- How many statements began while the stack was full and still run. -/
  untracked : Nat
  startedAt : Counter
  deriving DecidableEq, Repr

namespace Tally

/-- The tally of a call that begins now. -/
def new (m : Numbering) (now : Counter) : Tally where
  timers := (List.zipWith Timer.ofLine m.lines m.fingerprints).toArray
  stack := []
  untracked := 0
  startedAt := now

def size (t : Tally) : Nat := t.timers.size

/-- Whether a statement runs. -/
def isOpen (t : Tally) (id : Nat) : Bool := t.timers[id]?.any Timer.isOpen

/-- Stops the timer of a statement; also says whether it ran. -/
def close (t : Tally) (id : Nat) (now rows : Counter) (isError : Bool) :
    Except Fault (Tally × Bool) :=
  match t.timers[id]? with
  | none => .ok (t, false)
  | some timer =>
    match timer.startedAt with
    | none => .ok (t, false)
    | some startedAt => do
      let timer ← timer.stop startedAt now rows isError
      return ({ t with timers := t.timers.setIfInBounds id timer }, true)

/-- Closes statements as errors, in the given order; also says how many of them ran. -/
def closeAll (t : Tally) (now : Counter) : List Nat → Except Fault (Tally × Nat)
  | [] => .ok (t, 0)
  | id :: rest => do
    let (t, ran) ← t.close id now 0 true
    let (t, n) ← closeAll t now rest
    return (t, if ran then n + 1 else n)

/-- Closes, as errors, the running statements that are not on the stack, `keep` excepted. -/
def closeUntracked (t : Tally) (keep : Option Nat) (now : Counter) : Except Fault (Tally × Nat) := do
  let ids := (List.range t.size).filter fun id => some id != keep && !t.stack.contains id
  let (t, n) ← t.closeAll now ids
  return ({ t with untracked := 0 }, n)

/-- Ends a statement.  What began inside it and still runs was skipped by an error and is closed
first. -/
def finish (t : Tally) (id : Nat) (now rows : Counter) (isError : Bool) : Except Fault Tally := do
  let t ←
    if t.stack.contains id then do
      let orphans := t.stack.takeWhile (· != id)
      let t := { t with stack := (t.stack.dropWhile (· != id)).tail }
      let (t, _) ← t.closeAll now orphans
      if 0 < t.untracked then (·.1) <$> t.closeUntracked (some id) now else pure t
    else
      pure (if t.isOpen id then { t with untracked := t.untracked - 1 } else t)
  let (t, _) ← t.close id now rows isError
  return t

/-- Starts the timer of a statement. -/
def start (t : Tally) (id : Nat) (now : Counter) : Tally :=
  let t := { t with timers := t.timers.modify id fun timer => { timer with startedAt := some now } }
  if t.stack.length < maxOpen then { t with stack := id :: t.stack }
  else { t with untracked := t.untracked + 1 }

/-- Begins a statement.  One that still runs was left by an error, and that execution is counted
first. -/
def begin (t : Tally) (id : Nat) (now : Counter) : Except Fault Tally :=
  if id < t.size then do
    let t ← if t.isOpen id then t.finish id now 0 true else pure t
    return t.start id now
  else .ok t

/-- Closes everything that still runs, as errors; also says how many statements that were. -/
def closeOpen (t : Tally) (now : Counter) : Except Fault (Tally × Nat) := do
  let (t, n) ← { t with stack := [] }.closeAll now t.stack
  if 0 < t.untracked then
    let (t, k) ← t.closeUntracked none now
    return (t, n + k)
  else return (t, n)

/-- Credits the root with one execution that spans the call, if the host never reported it. -/
def creditEntry (t : Tally) (now : Counter) : Tally :=
  let time := Counter.since now t.startedAt
  { t with
    timers := t.timers.modify 0 fun timer =>
      if timer.execCount = 0 then { timer with execCount := 1, elapsed := time, maxElapsed := time }
      else timer }

/-- The counts of the call as records in natural order. -/
def toRecords (t : Tally) : List Record := t.timers.toList.map Timer.toRecord

end Tally

end ProcProfile
