import ProcProfile.Statement

/-!
# Procedures and their identities

A procedure is known by its object id and the database that owns it.  Each time it is compiled anew
it becomes another *incarnation*, told apart by a version stamp and a physical location; profiles
belong to incarnations, call statistics to procedures.  One process may hold several compiled copies
of one incarnation, and each copy has its own handle.

Main definitions: `UnitKey`, `Identity`, `Place`, `Procedure`.
-/

namespace ProcProfile

/-- A procedure: its object id and the database that owns it. -/
structure UnitKey where
  unitId : UInt32
  ownerDb : UInt32
  deriving DecidableEq, Repr, Inhabited

/-- An incarnation of a procedure. -/
structure Identity where
  unitId : UInt32
  ownerDb : UInt32
  version : UInt64
  location : UInt64
  deriving DecidableEq, Repr, Inhabited

/-- The procedure of an incarnation. -/
def Identity.unitKey (id : Identity) : UnitKey := ⟨id.unitId, id.ownerDb⟩

/-- Tells the compiled copies of a process apart. -/
abbrev Handle := Nat

/-- Where a statement lives in memory.  Places are only ever compared: two statements may be equal and live in
different places. -/
inductive Place where
  /-- Where a statement is put, by its position in pre-order, when the tree of a copy is made. -/
  | inTree (tree : Handle) (index : Nat)
  /-- Any other place. -/
  | elsewhere (n : Nat)
  deriving DecidableEq, Repr

namespace Place

/-- The place of a statement in no tree. -/
def detached : Place := .elsewhere 0

theorem inTree_injective (tree : Handle) : Function.Injective (Place.inTree tree) := by
  intro i j h
  injection h

end Place

/-- A compiled copy of a procedure.  `statementCount` is what the interpreter reported; it need not
agree with the tree. -/
structure Procedure where
  handle : Handle
  unitId : UInt32
  ownerDb : UInt32
  version : UInt64
  location : UInt64
  name : String
  statementCount : Nat
  body : Statement
  /-- Where the statement at each position of the tree lives now.  The root is a part of the copy and moves with
  it, the statements inside it stay. -/
  places : Nat → Place := Place.inTree handle
  /-- No two statements live in one place. -/
  places_apart : Function.Injective places := by exact Place.inTree_injective _

namespace Procedure

/-- A compiled copy whose reported statement count is that of its tree. -/
def compile (handle : Handle) (id : Identity) (name : String) (body : Statement) : Procedure where
  handle := handle
  unitId := id.unitId
  ownerDb := id.ownerDb
  version := id.version
  location := id.location
  name := name
  statementCount := body.count
  body := body

def identity (p : Procedure) : Identity := ⟨p.unitId, p.ownerDb, p.version, p.location⟩

def unitKey (p : Procedure) : UnitKey := ⟨p.unitId, p.ownerDb⟩

/-- Anonymous blocks have no object id and are not profiled. -/
def isAnonymous (p : Procedure) : Bool := p.unitId == 0

end Procedure

end ProcProfile
