import ProcProfile.Region

/-!
# Locks inside a region

The records of an incarnation are guarded by the lock word of its chunk 1, and the call statistics of
a procedure by the lock word of their slot.  A word is 0 or the id of the owner that holds it.  A holder
that is no longer alive loses the lock to whoever waits for it; a holder that is alive is waited for.

Main definitions: `Owner`, `Access` (what an operation leaves behind), `Region.withChunk`,
`Region.withUnit`.
-/

namespace ProcProfile

/-- Who uses a region: its id, and which other owners it sees alive. -/
structure Owner where
  id : UInt32
  isAlive : UInt32 → Bool

/-- The owner of a region that only its own process sees. -/
def Owner.local : Owner := ⟨localOwner, fun _ => true⟩

/-- What an operation on a region leaves behind: the region, the dead owners that lost a lock to it, and
its answer. -/
structure Access (α : Type) where
  region : Region
  retired : List UInt32
  answer : α

namespace Access

/-- The answer of an operation that took no lock. -/
def pure {α : Type} (r : Region) (answer : α) : Access α := ⟨r, [], answer⟩

/-- An operation after another one. -/
def andThen {α β : Type} (a : Access α) (f : α → Region → Except Fault (Access β)) :
    Except Fault (Access β) := do
  let b ← f a.answer a.region
  return { b with retired := a.retired ++ b.retired }

def map {α β : Type} (f : α → β) (a : Access α) : Access β := ⟨a.region, a.retired, f a.answer⟩

end Access

/-- Takes a lock word: gives the dead owner that held it, if any did. -/
def Owner.take (o : Owner) (word : UInt32) : Except Fault (List UInt32) :=
  if word = 0 then .ok []
  else if word = o.id || o.isAlive word then .error .waiting
  else .ok [word]

namespace Region

/-- Runs `body` while holding the lock of a chunk slot.  The lock is free afterwards, whatever the
answer is. -/
def withChunk {α : Type} (r : Region) (o : Owner) (i : Nat)
    (body : Region → Except Fault (Region × α)) : Except Fault (Access α) := do
  let retired ← o.take (r.chunks.get i).mutex
  let (r, answer) ← body { r with chunks := r.chunks.setMutex i o.id }
  return ⟨{ r with chunks := r.chunks.setMutex i 0 }, retired, answer⟩

/-- Runs `body` while holding the lock of a unit slot.  The lock is free afterwards. -/
def withUnit {α : Type} (r : Region) (o : Owner) (i : Nat)
    (body : Region → Except Fault (Region × α)) : Except Fault (Access α) := do
  let retired ← o.take (r.units.get i).mutex
  let (r, answer) ← body { r with units := r.units.setMutex i o.id }
  return ⟨{ r with units := r.units.setMutex i 0 }, retired, answer⟩

end Region

end ProcProfile
