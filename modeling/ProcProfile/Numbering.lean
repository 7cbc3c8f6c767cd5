import Std.Data.HashMap
import ProcProfile.ByLine
import ProcProfile.Error
import ProcProfile.Procedure

/-!
# Statement numbering

The interpreter's statement ids are not in source order, and some interpreters give none.  Each
compiled copy therefore gets a *numbering*: its statements in pre-order are numbered 0, 1, 2, …, and
these natural ids index the timers of a call and the stored records.  A statement is recognised by
the interpreter's id if the root has one, and by the place where it lives otherwise.

Main definitions: `LineIndex`, `StatementIndex`, `Numbering`, `Numbering.build`, `Numbering.naturalId`.
-/

namespace ProcProfile

/-! ### Statements by their place -/

/-- A statement that was indexed: where it lives, and its natural id. -/
structure LineEntry where
  place : Place
  naturalId : Nat

/-- The indexed statements, and for each line where among them those of the line are. -/
structure LineIndex where
  entries : Array LineEntry
  byLine : ByLine Nat

namespace LineIndex

def empty : LineIndex := ⟨#[], ∅⟩

/-- Indexes a statement. -/
def insert (x : LineIndex) (s : Statement) (place : Place) (naturalId : Nat) : LineIndex :=
  let entry := x.entries.size
  ⟨x.entries.push ⟨place, naturalId⟩, x.byLine.push s.line entry⟩

/-- The first statement on the line of `s` that lives in the place of `s`. -/
def find? (x : LineIndex) (s : Statement) (place : Place) : Option Nat := do
  let entry ← (x.byLine.on s.line).findSome? fun k => x.entries[k]?.filter fun e => e.place = place
  return entry.naturalId

end LineIndex

/-! ### Indexes -/

/-- How a numbering recognises a statement. -/
inductive StatementIndex where
  /-- By the interpreter's id.  Natural ids are kept in 32 bits. -/
  | native (naturalOf : Std.HashMap UInt32 Int32)
  /-- By its place. -/
  | lines (index : LineIndex)

namespace StatementIndex

/-- What stands for an id that no statement has. -/
def gap : Int32 := -1

/-- The natural id that is held under an id.  A negative number is read as a large one. -/
def held? (held : Int32) : Option Nat :=
  if held = gap then none else some held.toInt64.toUInt64.toNat

/-- An index without statements, for a tree with this root. -/
def empty (root : Statement) : StatementIndex :=
  if root.nativeId.isSome then .native ∅ else .lines .empty

/-- Gives a statement its natural id.  Where the interpreter's ids are used, every statement has to have
one, they start at 1, and none may come twice. -/
def assign (index : StatementIndex) (s : Statement) (place : Place) (naturalId : Nat) :
    Except WalkError StatementIndex :=
  match index with
  | .native naturalOf =>
    match s.nativeId with
    | none => .error (.unmappedStatement s.line)
    | some id =>
      if id = 0 then .error (.unmappedStatement s.line)
      else if naturalOf.getD id gap ≠ gap then .error (.duplicateNativeId id)
      else .ok (.native (naturalOf.insert id (Int32.ofNat naturalId)))
  | .lines index => .ok (.lines (index.insert s place naturalId))

/-- The natural id of a statement, if it was indexed. -/
def find? (index : StatementIndex) (s : Statement) (place : Place) : Option Nat :=
  match index with
  | .native naturalOf => s.nativeId.bind fun id => held? (naturalOf.getD id gap)
  | .lines index => index.find? s place

end StatementIndex

/-! ### Numberings -/

/-- The natural ids of one incarnation.  The lists run in natural order. -/
structure Numbering where
  identity : Identity
  index : StatementIndex
  nativeIds : List (Option UInt32)
  lines : List Int32
  fingerprints : List (Option UInt64)

namespace Numbering

/-- How many statements are numbered. -/
def size (m : Numbering) : Nat := m.lines.length

def usesNativeIds (m : Numbering) : Bool :=
  match m.index with
  | .native _ => true
  | .lines _ => false

/-- The bytes that an entry of the longest table takes. -/
def entryBytes : Nat := 16

/-- The longest table that can be asked for, in bytes. -/
def maxTableBytes : Nat := 0x7fffffffffffffff

/-- Gives the statements of a list the natural ids `next`, `next + 1`, …, as long as memory has room for their
entries. -/
def indexFrom (places : Nat → Place) (index : StatementIndex) (next : Nat) :
    List Statement → Except (Stop WalkError) StatementIndex
  | [] => .ok index
  | s :: rest =>
    if maxMemory < (next + 1) * entryBytes then .error (.fault .outOfMemory)
    else
      match index.assign s (places next) next with
      | .error e => .error (.error e)
      | .ok index => indexFrom places index (next + 1) rest

/-- Numbers the statements of a copy.  Room is made for as many as the interpreter reported, and the tree
has to hold as many. -/
def build (p : Procedure) : Except (Stop WalkError) Numbering :=
  if maxTableBytes < p.statementCount * entryBytes then .error (.fault .capacityOverflow)
  else if maxMemory < p.statementCount * entryBytes then .error (.fault .outOfMemory)
  else do
    let statements := p.body.preorder
    let index ← indexFrom p.places (.empty p.body) 0 statements
    let found := statements.length
    if found ≠ p.statementCount then
      .error (.error (.statementCountMismatch p.statementCount found))
    else
      .ok { identity := p.identity
            index := index
            nativeIds := statements.map Statement.nativeId
            lines := statements.map Statement.line
            fingerprints := statements.map Statement.fingerprint }

/-- The natural id of a statement, if the numbering recognises it. -/
def find? (m : Numbering) (s : Statement) (place : Place) : Option Nat := m.index.find? s place

/-- The natural id of a statement; a statement that is not recognised is an error. -/
def naturalId (m : Numbering) (s : Statement) (place : Place) : Except WalkError Nat :=
  match m.find? s place with
  | some i => .ok i
  | none => .error (.unmappedStatement s.line)

end Numbering

end ProcProfile
