import Mathlib.Tactic
import ProcProfile.Proofs.Fault
import ProcProfile.Reading

/-!
# What a walk along a stored profile passes

A walk for rows and a walk for coverage do different things at a statement and at a branch.  What they pass is the
same: the statements with their records, the branches with how often each was taken, and the IFs whose branches were
taken more often than the IF itself.  Each of them makes its own of these items.

* `ReadItem`, `Reader.take`: what is passed, and what a walk makes of it;
* `Reading.recordAt`: the record that a statement gets;
* `Reader.enter_eq`, `Reader.implicitElse_eq`: both walks pass these items;
* `Reader.toRows_foldl_take`, `Reader.toCounts_foldl_take`: what they have made of them in the end.
-/

namespace ProcProfile

/-- What a walk along a stored profile passes. -/
inductive ReadItem where
  /-- A statement at its 1-based position in an arm, with its stored counts. -/
  | statement (naturalId : Nat) (parent : Option Enclosing) (position : Nat) (statement : Statement)
      (record : Record)
  /-- A branch and how often it was taken. -/
  | branch (execCount : Counter)
  /-- An IF whose branches were taken more often than it was executed. -/
  | overrun

/-- The row of an item: visible statements have one. -/
def ReadItem.row? : ReadItem → Option StatementRow
  | .statement id parent position s record => if s.isVisible then some (s.row id parent position record) else none
  | .branch _ | .overrun => none

/-- Counts an item. -/
def CoverageCounts.addItem (c : CoverageCounts) : ReadItem → CoverageCounts
  | .statement _ _ _ s record => if s.isVisible then c.addStatement record.execCount else c
  | .branch execCount => c.addBranch execCount
  | .overrun => { c with anomalies := c.anomalies + 1 }

namespace Reading

/-- The stored record of the `i`-th statement; without stored records, one without counts. -/
def recordAt (p : Profile) (i : Nat) (s : Statement) : Except WalkError Record := do
  let id ← p.numbering.naturalId s (p.places i)
  let record ← p.next i id s
  return record.getD .unused

/-- The items of the branch that an IF without an else has for the executions that took none of its `taken` branches. -/
def implicitElseItems (execCount taken : Counter) : List ReadItem :=
  if taken ≤ execCount then [.branch (execCount - taken)] else [.overrun, .branch 0]

end Reading

/-- A record is only given for the statement with the natural id that is asked for. -/
theorem Profile.eq_of_next {p : Profile} {i id : Nat} {s : Statement} {record : Option Record}
    (h : p.next i id s = .ok record) : i = id := by
  by_contra hne
  rw [next, if_pos hne] at h
  cases h

namespace Reader

/-- What a walk makes of an item. -/
def take (reader : Reader) (item : ReadItem) : Reader :=
  match reader with
  | .rows made => .rows (item.row?.toList ++ made)
  | .coverage counts => .coverage (counts.addItem item)

variable {p : Profile} {i : Nat} {parent : Option Enclosing} {position : Nat} {s : Statement}

/-- Both walks pass a statement with its record. -/
theorem enter_eq (reader : Reader) : reader.enter p i parent position s =
    (fun record => ⟨i, record.execCount, reader.take (.statement i parent position s record)⟩) <$>
      Reading.recordAt p i s := by
  unfold Reading.recordAt
  cases hid : p.numbering.naturalId s (p.places i) with
  | error e =>
    cases reader with
    | rows made => rw [enter, hid]; rfl
    | coverage counts => rw [enter, hid]; rfl
  | ok id =>
    cases hnext : p.next i id s with
    | error e =>
      cases reader with
      | rows made => simp only [enter, hid, hnext, bind, Except.bind]; rfl
      | coverage counts => simp only [enter, hid, hnext, bind, Except.bind]; rfl
    | ok record =>
      obtain rfl := Profile.eq_of_next hnext
      cases reader with
      | rows made =>
        simp only [enter, hid, hnext, bind, Except.bind, pure, Except.pure, Functor.map, Except.map, take,
          ReadItem.row?]
        cases s.isVisible with
        | true => rfl
        | false => rfl
      | coverage counts =>
        simp only [enter, hid, hnext, bind, Except.bind, pure, Except.pure, Functor.map, Except.map, take,
          CoverageCounts.addItem]
        cases record with
        | none => rfl
        | some record => rfl

/-- Both walks pass the branch that an IF has without an else, and coverage notes if there is none left for it. -/
theorem implicitElse_eq (reader : Reader) (execCount taken : Counter) :
    (reader.implicitElse execCount taken).2.branch (reader.implicitElse execCount taken).1 =
      (Reading.implicitElseItems execCount taken).foldl take reader := by
  unfold Reading.implicitElseItems
  cases reader with
  | rows made => split_ifs <;> rfl
  | coverage counts =>
    rw [implicitElse]
    split_ifs <;> rfl

theorem toRows_foldl_take (items : List ReadItem) (made : List StatementRow) :
    (items.foldl take (.rows made)).toRows = made.reverse ++ items.filterMap ReadItem.row? := by
  induction items generalizing made with
  | nil => simp [toRows]
  | cons item items ih =>
    rw [List.foldl_cons, take, ih]
    cases hrow : item.row? with
    | none => simp [hrow]
    | some row => simp [hrow]

theorem toCounts_foldl_take (items : List ReadItem) (counts : CoverageCounts) :
    (items.foldl take (.coverage counts)).toCounts = items.foldl CoverageCounts.addItem counts := by
  induction items generalizing counts with
  | nil => rfl
  | cons item items ih => rw [List.foldl_cons, List.foldl_cons, take, ih]

end Reader

end ProcProfile
