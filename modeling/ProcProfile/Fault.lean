/-!
# Faults and checked arithmetic

Counters are 64-bit words and chunk numbers are signed 16-bit words.  A counter that would pass its
last value is a *fault*: the operation that met it gives no answer, and whatever ran it stops.  A
fault is therefore kept apart from the errors that an operation reports and a caller can handle.

Main definitions: `Fault`, `Stop` (an error or a fault), `maxMemory`, the checked operations `Counter.add`,
`Counter.mul`, `Counter.sum`, `ChunkNumber.next`, and the saturating difference `Counter.since`.
-/

namespace ProcProfile

/-- Why an operation gives no answer at all. -/
inductive Fault where
  /-- A sum passed the last value of its type. -/
  | addOverflow
  /-- A product passed the last value of its type. -/
  | mulOverflow
  /-- A table would be longer than memory can ever be. -/
  | capacityOverflow
  /-- Memory has no more room for a table. -/
  | outOfMemory
  /-- The operation waits for a lock whose holder is alive and never lets go. -/
  | waiting
  deriving DecidableEq, Repr

/-- The text shown for a fault. -/
def Fault.message : Fault → String
  | .addOverflow => "attempt to add with overflow"
  | .mulOverflow => "attempt to multiply with overflow"
  | .capacityOverflow => "capacity overflow"
  | .outOfMemory => "memory allocation failed"
  | .waiting => "waiting for a lock that is never released"

/-- The largest piece of memory that there is room for, in bytes. -/
def maxMemory : Nat := 0x800000000

/-- Why an operation did not succeed: it reported an error, or a fault stopped it. -/
inductive Stop (ε : Type) where
  | error (cause : ε)
  | fault (cause : Fault)
  deriving DecidableEq, Repr

/-- Raises a fault as the reason to stop. -/
def Stop.ofFault {ε α : Type} : Except Fault α → Except (Stop ε) α
  | .ok a => .ok a
  | .error f => .error (.fault f)

/-- Raises an error as the reason to stop. -/
def Stop.ofError {ε α : Type} : Except ε α → Except (Stop ε) α
  | .ok a => .ok a
  | .error e => .error (.error e)

/-- A 64-bit counter or time in microseconds. -/
abbrev Counter := UInt64

namespace Counter

/-- The sum, or a fault if it does not fit. -/
def add (a b : Counter) : Except Fault Counter :=
  if a.toNat + b.toNat < UInt64.size then .ok (a + b) else .error .addOverflow

/-- The product, or a fault if it does not fit. -/
def mul (a b : Counter) : Except Fault Counter :=
  if a.toNat * b.toNat < UInt64.size then .ok (a * b) else .error .mulOverflow

/-- The sum of a list, or a fault as soon as a partial sum does not fit. -/
def sum : List Counter → Except Fault Counter :=
  List.foldlM add 0

/-- The time from `start` to `now`, zero if the clock went back. -/
def since (now start : Counter) : Counter :=
  if start ≤ now then now - start else 0

theorem add_eq_ok {a b c : Counter} : add a b = .ok c ↔ c.toNat = a.toNat + b.toNat := by
  unfold add
  split
  · rename_i h
    rw [Except.ok.injEq, ← UInt64.toNat_inj, UInt64.toNat_add, Nat.mod_eq_of_lt h]
    exact eq_comm
  · rename_i h
    simp only [reduceCtorEq, false_iff]
    intro hc
    exact h (hc ▸ c.toNat_lt)

theorem toNat_since (now start : Counter) : (since now start).toNat = now.toNat - start.toNat := by
  unfold since
  split
  · rename_i h
    exact UInt64.toNat_sub_of_le _ _ h
  · rename_i h
    rw [UInt64.le_iff_toNat_le] at h
    simp; omega

end Counter

/-- The 1-based number of a chunk of a profile. -/
abbrev ChunkNumber := Int16

/-- The number after this one, or a fault after the last. -/
def ChunkNumber.next (n : ChunkNumber) : Except Fault ChunkNumber :=
  if n.toInt + 1 < 0x8000 then .ok (n + 1) else .error .addOverflow

end ProcProfile
