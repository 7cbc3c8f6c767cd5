import Std.Data.TreeMap

/-!
# Slot tables

A table of fixed size with open addressing.  A key starts its search at its home slot and goes on slot
by slot, around the end, until it meets itself or a slot that was never used.  A removed entry leaves a
mark that a search passes and an insertion may take; what the slot held stays in it.

A slot's state is a word of a shared image, so any value may turn up in it.  Values without a meaning
mark a slot that holds no entry and cannot be taken.

Main definitions: `Slot`, `Slotted` (keys with a home), `Table`, `Table.get`, `Table.lookup`,
`Table.find?`, `Table.place`, `Table.remove`, `Table.clear`.
-/

namespace ProcProfile

/-- What the state word of a slot says. -/
inductive SlotStatus where
  | empty
  | used
  | deleted
  | unknown
  deriving DecidableEq, Repr

/-- One slot: its state, the word that locks its entry, and the entry. -/
structure Slot (κ ν : Type) where
  state : UInt32
  mutex : UInt32
  key : κ
  value : ν
  deriving DecidableEq, Repr, Inhabited

namespace Slot

variable {κ ν : Type}

def emptyWord : UInt32 := 0

def usedWord : UInt32 := 1

def deletedWord : UInt32 := 2

def status (s : Slot κ ν) : SlotStatus :=
  if s.state = emptyWord then .empty
  else if s.state = usedWord then .used
  else if s.state = deletedWord then .deleted
  else .unknown

/-- Whether the slot holds an entry. -/
def isUsed (s : Slot κ ν) : Bool := s.state == usedWord

/-- The key of the entry, if there is one. -/
def key? (s : Slot κ ν) : Option κ := if s.isUsed then some s.key else none

end Slot

/-- Keys that a table can hold. -/
class Slotted (κ : Type) extends BEq κ where
  /-- Where the search for a key starts, before reduction to the size of the table. -/
  home : κ → UInt64

/-- A table of `size` slots.  Only the slots that were written to are kept; every other slot is as it was
at first, all zero. -/
structure Table (κ ν : Type) where
  size : Nat
  written : Std.TreeMap Nat (Slot κ ν)
  lt_size : ∀ i ∈ written, i < size

/-- Where a search ended. -/
inductive Lookup where
  | found (index : Nat)
  /-- The key is absent; the first slot on the way that an insertion may take. -/
  | vacant (index : Option Nat)
  deriving DecidableEq, Repr

namespace Table

variable {κ ν : Type}

/-- A table whose slots were never used. -/
def new (size : Nat) : Table κ ν := ⟨size, ∅, by simp⟩

/-- Replaces a slot. -/
def set (t : Table κ ν) (i : Nat) (slot : Slot κ ν) : Table κ ν :=
  if h : i < t.size then
    { t with
      written := t.written.insert i slot
      lt_size := by
        intro j hj
        rcases Std.TreeMap.mem_insert.1 hj with hij | hj
        · exact Std.LawfulEqCmp.eq_of_compare hij ▸ h
        · exact t.lt_size j hj }
  else t

/-- Marks every slot as never used. -/
def clear (t : Table κ ν) : Table κ ν :=
  { t with
    written := t.written.map fun _ slot => { slot with state := Slot.emptyWord }
    lt_size := fun i hi => t.lt_size i (Std.TreeMap.mem_map.1 hi) }

/-- The slots that were written to, in order. -/
def toList (t : Table κ ν) : List (Nat × Slot κ ν) := t.written.toList

/-- The slots that hold an entry whose key passes a test. -/
def indices (t : Table κ ν) (test : κ → Bool) : List Nat :=
  t.toList.filterMap fun (i, slot) => if slot.isUsed && test slot.key then some i else none

/-- The entries, in slot order. -/
def entries (t : Table κ ν) : List (κ × ν) :=
  t.toList.filterMap fun (_, slot) => if slot.isUsed then some (slot.key, slot.value) else none

/-- Puts an entry into a slot. -/
def place (t : Table κ ν) (i : Nat) (key : κ) (value : ν) : Table κ ν :=
  t.set i ⟨Slot.usedWord, 0, key, value⟩

@[simp] theorem size_new (n : Nat) : (new n : Table κ ν).size = n := rfl

@[simp] theorem size_set (t : Table κ ν) (i : Nat) (slot : Slot κ ν) : (t.set i slot).size = t.size := by
  unfold set
  split <;> rfl

/-- There is no slot past the end of a table to write to. -/
theorem set_of_size_le (t : Table κ ν) {i : Nat} (slot : Slot κ ν) (h : t.size ≤ i) :
    t.set i slot = t := by
  simp [set, Nat.not_lt.2 h]

@[simp] theorem size_clear (t : Table κ ν) : t.clear.size = t.size := rfl

variable [Inhabited κ] [Inhabited ν]

/-- The slot at an index. -/
def get (t : Table κ ν) (i : Nat) : Slot κ ν := t.written.getD i default

/-- Changes a slot. -/
def modify (t : Table κ ν) (i : Nat) (f : Slot κ ν → Slot κ ν) : Table κ ν := t.set i (f (t.get i))

/-- Whether a slot holds an entry. -/
def isUsed (t : Table κ ν) (i : Nat) : Bool := (t.get i).isUsed

/-- Marks an entry as removed; other slots stay as they are. -/
def remove (t : Table κ ν) (i : Nat) : Table κ ν :=
  if t.isUsed i then t.modify i fun slot => { slot with state := Slot.deletedWord } else t

/-- Changes the value in a slot. -/
def write (t : Table κ ν) (i : Nat) (value : ν) : Table κ ν :=
  t.modify i fun slot => { slot with value := value }

/-- Changes the lock word of a slot. -/
def setMutex (t : Table κ ν) (i : Nat) (word : UInt32) : Table κ ν :=
  t.modify i fun slot => { slot with mutex := word }

/-! ### What the operations do to the slots -/

@[simp] theorem get_new (n i : Nat) : (new n : Table κ ν).get i = default := by simp [new, get]

/-- A slot of the table is what was written to it last. -/
theorem get_set (t : Table κ ν) {i : Nat} (slot : Slot κ ν) (h : i < t.size) (j : Nat) :
    (t.set i slot).get j = if i = j then slot else t.get j := by
  simp [set, get, h, Std.TreeMap.getD_insert]

/-- After clearing a table every slot still holds what it held, but was never used. -/
theorem get_clear (t : Table κ ν) (i : Nat) :
    t.clear.get i = { t.get i with state := Slot.emptyWord } := by
  simp only [clear, get, Std.TreeMap.getD_eq_getD_getElem?, Std.TreeMap.getElem?_map]
  cases t.written[i]? <;> rfl

/-- A slot past the end of a table is as it was at first. -/
theorem get_of_size_le (t : Table κ ν) {i : Nat} (h : t.size ≤ i) : t.get i = default :=
  Std.TreeMap.getD_eq_fallback fun hi => absurd (t.lt_size i hi) (Nat.not_lt.2 h)

section Search

variable [Slotted κ]

/-- Where the search for a key starts. -/
def home (t : Table κ ν) (key : κ) : Nat := (Slotted.home key).toNat % t.size

/-- The search for a key over the last `left` slots of its way, which started at `start`; `vacant` is the
first slot passed that an insertion may take. -/
def scan (t : Table κ ν) (key : κ) (start : Nat) : (left : Nat) → (vacant : Option Nat) → Lookup
  | 0, vacant => .vacant vacant
  | left + 1, vacant =>
    let i := (start + (t.size - (left + 1))) % t.size
    let slot := t.get i
    match slot.status with
    | .empty => .vacant (vacant.or (some i))
    | .deleted => scan t key start left (vacant.or (some i))
    | .used => if slot.key == key then .found i else scan t key start left vacant
    | .unknown => scan t key start left vacant

/-- Where the search for a key ends. -/
def lookup (t : Table κ ν) (key : κ) : Lookup := t.scan key (t.home key) t.size none

/-- The slot that holds a key. -/
def find? (t : Table κ ν) (key : κ) : Option Nat :=
  match t.lookup key with
  | .found i => some i
  | .vacant _ => none

end Search

end Table

end ProcProfile
