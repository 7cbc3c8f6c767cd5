import ProcProfile.Numbering

/-!
# Cache of numberings

A process keeps the numberings that it has built, by handle.  Every request gets a later tick; once
the cache holds more than its limit, the entries with the earliest ticks go.

Main definitions: `NumberingCache`, `NumberingCache.buildOrGet`, `NumberingCache.invalidate`.
-/

namespace ProcProfile

/-- A numbering and the tick of the last request for it. -/
structure CachedNumbering where
  handle : Handle
  numbering : Numbering
  lastUsed : Nat

/-- The numberings that a process keeps. -/
structure NumberingCache where
  limit : Nat
  tick : Nat
  entries : List CachedNumbering

namespace NumberingCache

/-- How many numberings a session keeps. -/
def defaultLimit : Nat := 1024

/-- An empty cache; it keeps at least one numbering. -/
def withLimit (limit : Nat) : NumberingCache := ⟨max limit 1, 0, []⟩

/-- An empty cache of the usual size. -/
def new : NumberingCache := withLimit defaultLimit

def size (c : NumberingCache) : Nat := c.entries.length

/-- The entry of a handle. -/
def find? (c : NumberingCache) (handle : Handle) : Option CachedNumbering :=
  c.entries.find? fun e => e.handle == handle

def contains (c : NumberingCache) (handle : Handle) : Bool := (c.find? handle).isSome

/-- Drops the entries least recently used, down to the limit. -/
def evict (c : NumberingCache) : NumberingCache :=
  let excess := c.entries.length - c.limit
  let byAge := c.entries.mergeSort fun a b => decide (a.lastUsed ≤ b.lastUsed)
  let evicted := (byAge.take excess).map CachedNumbering.handle
  { c with entries := c.entries.filter fun e => !evicted.contains e.handle }

/-- Marks the entry of a handle as used at a tick. -/
def touch (c : NumberingCache) (handle : Handle) (tick : Nat) : NumberingCache :=
  { c with
    entries := c.entries.map fun e => if e.handle = handle then { e with lastUsed := tick } else e }

/-- The numbering of a copy, from the cache or built now.  A failed build leaves the entries as they
were. -/
def buildOrGet (c : NumberingCache) (p : Procedure) :
    NumberingCache × Except (Stop WalkError) Numbering :=
  let c := { c with tick := c.tick + 1 }
  match c.find? p.handle with
  | some entry => (c.touch p.handle c.tick, .ok entry.numbering)
  | none =>
    match Numbering.build p with
    | .error e => (c, .error e)
    | .ok numbering =>
      let entry := ⟨p.handle, numbering, c.tick + 1⟩
      (({ c with tick := c.tick + 1, entries := entry :: c.entries }).evict, .ok numbering)

/-- Drops the numberings of one procedure, or all of them; also says how many went. -/
def invalidate (c : NumberingCache) (unit : Option UnitKey) : NumberingCache × Nat :=
  let kept :=
    match unit with
    | some key => c.entries.filter fun e => e.numbering.identity.unitKey != key
    | none => []
  ({ c with entries := kept }, c.entries.length - kept.length)

end NumberingCache

end ProcProfile
