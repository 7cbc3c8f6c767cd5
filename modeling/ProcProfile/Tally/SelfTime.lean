import ProcProfile.Tally

/-!
# Self times

At the end of a call the inclusive times of its tally are turned into self times: from the time of a
compound statement the times of the statements directly inside it are taken away, down to zero at
least.  The walk visits a statement's arms before the statement itself.  A longest time of a compound
statement is kept only if the statement ran once, since a longest inclusive time cannot be split.

Main definitions: `SelfTime.settle`, `SelfTime.visit`, `Tally.fold`.
-/

namespace ProcProfile

/-- A walk that changes a tally.  An error leaves what was changed before it; a fault leaves nothing. -/
abbrev SelfTime := ExceptT WalkError (StateT Tally (Except Fault))

namespace SelfTime

/-- A checked sum of times. -/
def addTime (a b : Counter) : SelfTime Counter := liftM (Counter.add a b)

/-- Turns the measured time of a statement into its self time, given the time spent in its arms; gives
its inclusive time. -/
def settle (s : Statement) (id : Nat) (nested : Counter) : SelfTime Counter := do
  let t ← get
  match t.timers[id]? with
  | none => return nested
  | some timer =>
    if s.isCompound then
      let own := Counter.since timer.elapsed nested
      let timer := { timer with elapsed := own, maxElapsed := if timer.execCount = 1 then own else 0 }
      set { t with timers := t.timers.setIfInBounds id timer }
      addTime nested own
    else return timer.elapsed

/-- The position after a statement or list in pre-order, and the inclusive time of what was visited. -/
abbrev Visited := Nat × Counter

variable (m : Numbering) (places : Nat → Place)

mutual

/-- Visits the statement at position `i` of the tree. -/
def visit (i : Nat) : Statement → SelfTime Visited
  | s@(.block _ _ body handlers) => do
    let id ← m.naturalId s (places i)
    let (j, inBody) ← visitList (i + 1) 0 body
    let (j, nested) ← visitLists j inBody handlers
    return (j, ← settle s id nested)
  | s@(.cond _ thenBody elsifs none) => do
    let id ← m.naturalId s (places i)
    let (j, inThen) ← visitList (i + 1) 0 thenBody
    let (j, nested) ← visitLists j inThen elsifs
    return (j, ← settle s id nested)
  | s@(.cond _ thenBody elsifs (some elseBody)) => do
    let id ← m.naturalId s (places i)
    let (j, inThen) ← visitList (i + 1) 0 thenBody
    let (j, inElsifs) ← visitLists j inThen elsifs
    let (j, inElse) ← visitList j 0 elseBody
    return (j, ← settle s id (← addTime inElsifs inElse))
  | s@(.choice _ whens none) => do
    let id ← m.naturalId s (places i)
    let (j, nested) ← visitLists (i + 1) 0 whens
    return (j, ← settle s id nested)
  | s@(.choice _ whens (some elseBody)) => do
    let id ← m.naturalId s (places i)
    let (j, inWhens) ← visitLists (i + 1) 0 whens
    let (j, inElse) ← visitList j 0 elseBody
    return (j, ← settle s id (← addTime inWhens inElse))
  | s@(.loop _ _ body) => do
    let id ← m.naturalId s (places i)
    let (j, nested) ← visitList (i + 1) 0 body
    return (j, ← settle s id nested)
  | s@(.simple ..) => do
    let id ← m.naturalId s (places i)
    return (i + 1, ← settle s id 0)

/-- Visits a list whose first statement is at position `i`, adding the times to `acc`. -/
def visitList (i : Nat) (acc : Counter) : List Statement → SelfTime Visited
  | [] => return (i, acc)
  | s :: rest => do
    let (j, time) ← visit i s
    visitList j (← addTime acc time) rest

/-- Visits several lists, adding the times to `acc`. -/
def visitLists (i : Nat) (acc : Counter) : List (List Statement) → SelfTime Visited
  | [] => return (i, acc)
  | list :: rest => do
    let (j, time) ← visitList i 0 list
    visitLists j (← addTime acc time) rest

end

end SelfTime

/-- Turns the times of a tally into self times by a walk over the tree of a copy; the answer is the
inclusive time of the root. -/
def Tally.fold (t : Tally) (m : Numbering) (p : Procedure) :
    Except Fault (Except WalkError Counter × Tally) :=
  ((·.2) <$> SelfTime.visit m p.places 0 p.body).run.run t

end ProcProfile
