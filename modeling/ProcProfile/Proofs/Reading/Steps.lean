import Mathlib.Tactic
import ProcProfile.Proofs.Reading.Items
import ProcProfile.Proofs.Reading.Spots

/-!
# The steps of a walk along a stored profile

A walk asks for the record of each statement in pre-order.  After an arm that is a branch it notes how often the
branch was taken, after an ELSIF it checks that the branches so far were not taken too often for a counter, and
after an IF without an ELSE it notes how often none of the branches was taken.  All of that is fixed by the tree:
it is a list of steps, and the stored records only decide at which of them the walk stops.

* `Reading.exec`, `Reading.branchExecs`: executions of a statement, and of the branches of an IF;
* `Branch`, `Step`, `Spot.steps`: branches, and the steps of the walk over a tree, in their order;
* `Step.check`, `Step.items`: what a step asks for, and what it passes;
* `Reading.visit_eq`: a walk over a tree takes the steps of the tree, whatever it makes of them;
* `Reading.items`: what all steps pass, if none of them stops a walk;
* `resultRows_eq`, `Coverage.counts_eq`: rows and coverage are made of that.
-/

namespace ProcProfile

open Statement

namespace Reading

/-! ### Executions -/

section Executions

variable (p : Profile)

/-- How often the statement at a position was executed. -/
def exec (i : Nat) : Nat := (p.records.bind (·[i]?)).elim 0 fun record => record.execCount.toNat

/-- How often a list was entered: the executions of its first statement, which is at position `i`. -/
def entries (i : Nat) (list : List Statement) : Nat := if list.isEmpty then 0 else exec p i

/-- How often lists were entered that stand one after another from position `i` on. -/
def entriesSum (i : Nat) : List (List Statement) → Nat
  | [] => 0
  | list :: rest => entries p i list + entriesSum (i + counts list) rest

/-- How often the THEN and ELSIF branches of the statement at position `i` were taken together. -/
def branchExecs (i : Nat) : Statement → Nat
  | .cond _ thenBody elsifs _ => entriesSum p (i + 1) (thenBody :: elsifs)
  | _ => 0

/-- The record that is stored for a position, or one without counts. -/
def stored (i : Nat) : Record := (p.records.bind (·[i]?)).getD Record.unused

end Executions

variable {p : Profile} {i : Nat}

theorem exec_eq (p : Profile) (i : Nat) : exec p i = (stored p i).execCount.toNat := by
  unfold exec stored
  cases p.records.bind (·[i]?) <;> rfl

theorem exec_lt (p : Profile) (i : Nat) : exec p i < 2 ^ 64 := by
  rw [exec_eq]
  exact UInt64.toNat_lt _

theorem entries_lt (p : Profile) (i : Nat) (list : List Statement) : entries p i list < 2 ^ 64 := by
  have := exec_lt p i
  unfold entries
  split_ifs <;> omega

theorem entriesSum_append (p : Profile) (i : Nat) (lists lists' : List (List Statement)) :
    entriesSum p i (lists ++ lists') =
      entriesSum p i lists + entriesSum p (i + counts lists.flatten) lists' := by
  induction lists generalizing i with
  | nil => simp [entriesSum]
  | cons list lists ih => simp [entriesSum, ih, Nat.add_assoc]

/-- The record that a statement gets is the stored one. -/
theorem eq_stored_of_recordAt {s : Statement} {record : Record} (h : recordAt p i s = .ok record) :
    record = stored p i := by
  obtain ⟨id, -, h⟩ := bind_eq_ok_iff.1 h
  obtain ⟨found, hnext, hfound⟩ := bind_eq_ok_iff.1 h
  obtain rfl := Profile.eq_of_next hnext
  cases hfound
  rw [Profile.next, if_neg (not_not.2 rfl)] at hnext
  unfold stored
  cases hrecords : p.records with
  | none =>
    rw [hrecords] at hnext
    cases hnext
    rfl
  | some records =>
    rw [hrecords] at hnext
    dsimp only at hnext
    rw [Option.bind_some]
    cases hget : records[i]? with
    | none =>
      rw [hget] at hnext
      cases hnext
    | some record =>
      rw [hget] at hnext
      dsimp only at hnext
      split_ifs at hnext
      cases hnext
      rfl

end Reading

/-! ### Steps -/

/-- A branch of a tree: a list that starts at a position, or the ELSE that an IF at a position does not have,
with the lists that it has instead. -/
inductive Branch where
  | list (start : Nat) (list : List Statement)
  | implicitElse (outer : Nat) (taken : List (List Statement))

/-- A step of a walk over a tree. -/
inductive Step where
  /-- Asks for the record of a statement. -/
  | read (c : Spot)
  /-- Notes how often a branch was taken. -/
  | branch (b : Branch)
  /-- Adds up how often the first branches of the IF at a position were taken. -/
  | sum (outer : Nat) (taken : List (List Statement))

namespace Step

open Reading

/-- What a step asks for. -/
def check (p : Profile) : Step → Except (Stop WalkError) Unit
  | .read c => (fun _ => ()) <$> Stop.ofError (recordAt p c.index c.statement)
  | .branch _ => .ok ()
  | .sum outer taken =>
    if entriesSum p (outer + 1) taken < 2 ^ 64 then .ok () else .error (.fault .addOverflow)

/-- What a step passes. -/
def items (p : Profile) : Step → List ReadItem
  | .read c => [.statement c.index c.parent c.position c.statement (stored p c.index)]
  | .branch (.list start list) => [.branch (UInt64.ofNat (entries p start list))]
  | .branch (.implicitElse outer taken) =>
    implicitElseItems (UInt64.ofNat (exec p outer)) (UInt64.ofNat (entriesSum p (outer + 1) taken))
  | .sum .. => []

end Step

/-- The steps after the statements of an arm. -/
def ArmSpot.closing (a : ArmSpot) : List Step :=
  match a.arm with
  | .body | .handler _ => []
  | .elsif _ => [.branch (.list a.start a.list), .sum a.outer (a.before ++ [a.list])]
  | _ => [.branch (.list a.start a.list)]

/-- The steps after all arms of the statement at position `outer`. -/
def Statement.closing (outer : Nat) : Statement → List Step
  | .cond _ thenBody elsifs none => [.branch (.implicitElse outer (thenBody :: elsifs))]
  | .cond _ _ _ (some _) | .block .. | .choice .. | .loop .. | .simple .. => []

namespace Spot

/-- The steps of the walk over the tree of a statement. -/
def steps (c : Spot) : List Step :=
  .read c :: (c.arms.attach.flatMap fun a => (a.1.spots.attach.flatMap fun d => d.1.steps) ++ a.1.closing) ++
    c.statement.closing c.index
termination_by c.statement.count
decreasing_by exact count_lt_of_mem_inner (mem_inner.2 ⟨a.1, a.2, d.2⟩)

end Spot

/-- The steps of the walk over the trees of an arm. -/
def ArmSpot.steps (a : ArmSpot) : List Step := a.spots.flatMap Spot.steps ++ a.closing

theorem Spot.steps_eq (c : Spot) :
    c.steps = [.read c] ++ (c.arms.flatMap ArmSpot.steps ++ c.statement.closing c.index) := by
  rw [steps]
  simp only [List.cons_append, List.flatMap_subtype, List.unattach_attach]
  rfl

namespace Reading

/-! ### The walk takes the steps -/

/-- Gives an answer if none of the steps stops the walk. -/
def through {α : Type} (p : Profile) (steps : List Step) (answer : α) : Except (Stop WalkError) α :=
  (fun _ => answer) <$> forM steps (Step.check p)

/-- What a walk has made of what it passed after some steps. -/
def pass (p : Profile) (steps : List Step) (reader : Reader) : Reader :=
  (steps.flatMap (Step.items p)).foldl Reader.take reader

variable {p : Profile} {α β : Type} {front back : List Step}

/-- Nothing stops the walk at a branch. -/
theorem through_branch (b : Branch) (steps : List Step) (answer : α) :
    through p (.branch b :: steps) answer = through p steps answer := by
  unfold through
  rw [List.forM_cons]
  rfl

theorem through_of_error {step : Step} {stop : Stop WalkError} (h : step.check p = .error stop) (steps : List Step)
    (answer : α) : through p (step :: steps) answer = .error stop := by
  unfold through
  rw [List.forM_cons, h]
  rfl

theorem pass_cons (step : Step) (steps : List Step) (reader : Reader) :
    pass p (step :: steps) reader = pass p steps ((step.items p).foldl Reader.take reader) := by
  simp [pass]

theorem pass_append (reader : Reader) :
    pass p (front ++ back) reader = pass p back (pass p front reader) := by
  simp [pass]

theorem pass_implicitElse (outer : Nat) (taken : List (List Statement)) (reader : Reader) :
    pass p [.branch (.implicitElse outer taken)] reader =
      (reader.implicitElse (UInt64.ofNat (exec p outer)) (UInt64.ofNat (entriesSum p (outer + 1) taken))).2.branch
        (reader.implicitElse (UInt64.ofNat (exec p outer)) (UInt64.ofNat (entriesSum p (outer + 1) taken))).1 := by
  rw [Reader.implicitElse_eq, pass, List.flatMap_singleton, Step.items]

/-- One part of the walk after another. -/
theorem through_bind {a : α} {b : β} {f : α → Except (Stop WalkError) β} (h : f a = through p back b) :
    through p front a >>= f = through p (front ++ back) b := by
  unfold through at h ⊢
  rw [List.forM_append]
  cases forM front (Step.check p) with
  | error stop => rfl
  | ok _ => exact h

/-- An answer made from the answer of a part of the walk. -/
theorem through_bind_ok {a : α} {b : β} {f : α → Except (Stop WalkError) β} (h : f a = .ok b) :
    through p front a >>= f = through p front b := by
  unfold through
  cases forM front (Step.check p) with
  | error stop => rfl
  | ok _ => exact h

theorem through_map {a : α} (f : α → β) : f <$> through p front a = through p front (f a) := by
  unfold through
  cases forM front (Step.check p) <;> rfl

/-- Entering a statement is the first step of the walk over its tree. -/
theorem ofError_enter (c : Spot) (reader : Reader) :
    Stop.ofError (reader.enter p c.index c.parent c.position c.statement) =
      through p [.read c] ⟨c.index, (stored p c.index).execCount, pass p [.read c] reader⟩ := by
  rw [Reader.enter_eq]
  unfold through
  cases hrecord : recordAt p c.index c.statement with
  | error e => simp [Step.check, hrecord, Stop.ofError]
  | ok record => simp [Step.check, hrecord, Stop.ofError, eq_stored_of_recordAt hrecord, pass, Step.items]

/-- A sum that fits, or not. -/
theorem ofFault_add {outer : Nat} {taken : List (List Statement)} {list : List Statement} {start : Nat}
    (hstart : start = outer + 1 + counts taken.flatten) (htaken : entriesSum p (outer + 1) taken < 2 ^ 64) :
    Stop.ofFault (Counter.add (UInt64.ofNat (entriesSum p (outer + 1) taken))
        (UInt64.ofNat (entries p start list))) =
      through p [.sum outer (taken ++ [list])] (UInt64.ofNat (entriesSum p (outer + 1) (taken ++ [list]))) := by
  have hsum : entriesSum p (outer + 1) (taken ++ [list]) =
      entriesSum p (outer + 1) taken + entries p start list := by
    rw [entriesSum_append, hstart]
    simp [entriesSum]
  have hentries := entries_lt p start list
  unfold through Counter.add
  rw [UInt64.toNat_ofNat_of_lt' htaken, UInt64.toNat_ofNat_of_lt' hentries, hsum,
    show UInt64.size = 2 ^ 64 from rfl]
  simp only [List.forM_cons, List.forM_nil, Step.check, hsum]
  by_cases hfits : entriesSum p (outer + 1) taken + entries p start list < 2 ^ 64
  · rw [if_pos hfits, if_pos hfits, UInt64.ofNat_add]
    rfl
  · rw [if_neg hfits, if_neg hfits]
    rfl

variable {reader : Reader}

open Reader

/-- A walk over a statement takes the steps of its tree. -/
def Taken (p : Profile) (c : Spot) : Prop :=
  ∀ reader, visit p reader c.index c.parent c.position c.statement =
    through p c.steps ⟨c.index + c.statement.count, UInt64.ofNat (exec p c.index), pass p c.steps reader⟩

theorem visitRest_eq {i : Nat} {parent : Enclosing} {position : Nat} {list : List Statement}
    (h : ∀ d ∈ listSpots i parent position list, Taken p d) :
    visitRest p reader i parent position list =
      through p ((listSpots i parent position list).flatMap Spot.steps)
        (i + counts list, pass p ((listSpots i parent position list).flatMap Spot.steps) reader) := by
  induction list generalizing i position reader with
  | nil => rw [visitRest]; rfl
  | cons s list ih =>
    rw [listSpots] at h ⊢
    have hhead := h _ List.mem_cons_self reader
    dsimp only at hhead
    rw [visitRest, hhead, List.flatMap_cons, counts_cons, ← Nat.add_assoc, pass_append]
    refine through_bind ?_
    exact ih fun d hd => h d (List.mem_cons_of_mem _ hd)

theorem visitList_eq {a : ArmSpot} (h : ∀ d ∈ a.spots, Taken p d) (reader : Reader) :
    visitList p reader a.start ⟨a.outer, a.arm⟩ a.list =
      through p (a.spots.flatMap Spot.steps)
        ⟨a.start + counts a.list, UInt64.ofNat (entries p a.start a.list),
          pass p (a.spots.flatMap Spot.steps) reader⟩ := by
  unfold ArmSpot.spots at h ⊢
  cases hlist : a.list with
  | nil => rw [visitList]; rfl
  | cons s list =>
    rw [hlist, listSpots] at h
    rw [listSpots]
    have hhead := h _ List.mem_cons_self reader
    dsimp only at hhead
    rw [visitList, hhead, List.flatMap_cons, counts_cons, ← Nat.add_assoc, pass_append]
    refine through_bind ?_
    rw [visitRest_eq fun d hd => h d (List.mem_cons_of_mem _ hd)]
    exact through_bind_ok rfl

/-- An arm that is a branch, as the last one of a statement. -/
theorem visitLast_eq {a : ArmSpot} (hclosing : a.closing = [.branch (.list a.start a.list)])
    (h : ∀ d ∈ a.spots, Taken p d) (reader : Reader) (execCount : Counter) :
    (do
      let inArm ← visitList p reader a.start ⟨a.outer, a.arm⟩ a.list
      return ⟨inArm.next, execCount, inArm.reader.branch inArm.execCount⟩) =
    through p a.steps (⟨a.start + counts a.list, execCount, pass p a.steps reader⟩ : Visited) := by
  rw [visitList_eq h, ArmSpot.steps, hclosing, pass_append]
  exact through_bind rfl

theorem visitArms_eq {i id number : Nat} {arm : Nat → Arm} {isBranch : Bool} {lists : List (List Statement)}
    (hclosing : ∀ n start list before, ArmSpot.closing ⟨id, arm n, start, list, before⟩ =
      if isBranch then [.branch (.list start list)] else [])
    {before : List (List Statement)}
    (h : ∀ a ∈ armSpots id i before (numberedFrom arm number lists), ∀ d ∈ a.spots, Taken p d)
    (reader : Reader) :
    visitArms p reader i id arm isBranch number lists =
      through p ((armSpots id i before (numberedFrom arm number lists)).flatMap ArmSpot.steps)
        (i + counts lists.flatten,
          pass p ((armSpots id i before (numberedFrom arm number lists)).flatMap ArmSpot.steps) reader) := by
  induction lists generalizing i number before reader with
  | nil => rw [visitArms]; rfl
  | cons list lists ih =>
    rw [numberedFrom_cons, armSpots] at h ⊢
    have hhead := visitList_eq (h _ List.mem_cons_self) reader
    have hrest := fun reader => ih (fun a ha => h a (List.mem_cons_of_mem _ ha)) reader
    dsimp only at hhead hrest ⊢
    rw [visitArms, hhead, List.flatMap_cons, ArmSpot.steps, hclosing, List.append_assoc, List.flatten_cons,
      counts_append, ← Nat.add_assoc, pass_append]
    refine through_bind ?_
    cases isBranch with
    | false => exact hrest _
    | true =>
      simp only [reduceIte, List.singleton_append, through_branch, pass_cons]
      exact hrest _

/-- The ELSIF arms of an IF, after its THEN arm and those in `before`. -/
theorem visitElsifs_eq {i id number : Nat} {lists before : List (List Statement)}
    (hi : i = id + 1 + counts before.flatten) (hbefore : entriesSum p (id + 1) before < 2 ^ 64)
    (h : ∀ a ∈ armSpots id i before (numberedFrom .elsif number lists), ∀ d ∈ a.spots, Taken p d)
    (reader : Reader) :
    visitElsifs p reader i id (UInt64.ofNat (entriesSum p (id + 1) before)) number lists =
      through p ((armSpots id i before (numberedFrom .elsif number lists)).flatMap ArmSpot.steps)
        (i + counts lists.flatten, UInt64.ofNat (entriesSum p (id + 1) (before ++ lists)),
          pass p ((armSpots id i before (numberedFrom .elsif number lists)).flatMap ArmSpot.steps) reader) := by
  induction lists generalizing i number before reader with
  | nil =>
    rw [visitElsifs, List.append_nil]
    rfl
  | cons list lists ih =>
    rw [numberedFrom_cons, armSpots] at h ⊢
    have hhead := visitList_eq (h _ List.mem_cons_self) reader
    dsimp only at hhead ⊢
    rw [visitElsifs, hhead, List.flatMap_cons, ArmSpot.steps, List.append_assoc, List.flatten_cons,
      counts_append, ← Nat.add_assoc, pass_append]
    refine through_bind ?_
    rw [ArmSpot.closing, List.cons_append, through_branch, pass_cons, pass_append, ofFault_add hi hbefore]
    by_cases hfits : entriesSum p (id + 1) (before ++ [list]) < 2 ^ 64
    · refine through_bind ?_
      rw [List.append_cons before list lists]
      exact ih (by simp [hi, Nat.add_assoc]) hfits (fun a ha => h a (List.mem_cons_of_mem _ ha)) _
    · have hsum : (Step.sum id (before ++ [list])).check p = .error (.fault .addOverflow) := if_neg hfits
      rw [through_of_error hsum, List.singleton_append, through_of_error hsum]
      rfl

/-- The THEN arm and the ELSIF arms of an IF. -/
theorem visitBranches_eq {i : Nat} {thenBody : List Statement} {elsifs : List (List Statement)}
    (h : ∀ a ∈ armSpots i (i + 1) [] ((.thenBody, thenBody) :: numbered .elsif elsifs), ∀ d ∈ a.spots, Taken p d)
    (reader : Reader) (f : Nat × Counter × Reader → Except (Stop WalkError) α) :
    (do
      let inThen ← visitList p reader (i + 1) ⟨i, .thenBody⟩ thenBody
      let a ← visitElsifs p (inThen.reader.branch inThen.execCount) inThen.next i inThen.execCount 1 elsifs
      f a) =
    through p ((armSpots i (i + 1) [] ((.thenBody, thenBody) :: numbered .elsif elsifs)).flatMap ArmSpot.steps)
      (i + 1 + counts (thenBody ++ elsifs.flatten), UInt64.ofNat (entriesSum p (i + 1) (thenBody :: elsifs)),
        pass p ((armSpots i (i + 1) [] ((.thenBody, thenBody) :: numbered .elsif elsifs)).flatMap ArmSpot.steps)
          reader) >>= f := by
  rw [armSpots] at h ⊢
  have hthen : ∀ reader, visitList p reader (i + 1) ⟨i, .thenBody⟩ thenBody = _ :=
    visitList_eq (h _ List.mem_cons_self)
  have hentries : entriesSum p (i + 1) [thenBody] = entries p (i + 1) thenBody := by simp [entriesSum]
  have helsifs : ∀ reader, visitElsifs p reader (i + 1 + counts thenBody) i
      (UInt64.ofNat (entriesSum p (i + 1) [thenBody])) 1 elsifs = _ :=
    visitElsifs_eq (by simp) (hentries ▸ entries_lt p (i + 1) thenBody)
      fun a ha => h a (List.mem_cons_of_mem _ ha)
  rw [hentries] at helsifs
  rw [← bind_assoc]
  refine congrArg (· >>= f) ?_
  rw [hthen, List.flatMap_cons, ArmSpot.steps, ArmSpot.closing, List.append_assoc, pass_append, counts_append,
    ← Nat.add_assoc]
  refine through_bind ?_
  rw [List.singleton_append, through_branch, pass_cons]
  exact helsifs _

/-- The walk over a tree takes the steps of the tree. -/
theorem visit_eq (p : Profile) (c : Spot) : Taken p c := by
  induction c using Spot.inner_induction with
  | step c ih =>
    intro reader
    have henter : Stop.ofError _ = through p _ _ := ofError_enter c reader
    have harms : ∀ a ∈ c.arms, ∀ d ∈ a.spots, Taken p d := fun a ha d hd => ih d (Spot.mem_inner.2 ⟨a, ha, hd⟩)
    have hexec : UInt64.ofNat (exec p c.index) = (stored p c.index).execCount := by simp [exec_eq]
    have hnext : c.index + c.statement.count = c.index + 1 + counts c.statement.nested := by
      rw [count_eq]
      omega
    rw [Spot.steps_eq, pass_append, hexec, hnext]
    obtain ⟨i, parent, position, s⟩ := c
    unfold Spot.arms at harms ⊢
    dsimp only at henter harms hexec ⊢
    match s with
    | .block site label body handlers =>
      rw [visit, henter, Statement.closing, List.append_nil, nested_block, counts_append, ← Nat.add_assoc]
      rw [arms, armSpots] at harms ⊢
      have hbody : ∀ reader, visitList p reader (i + 1) ⟨i, .body⟩ body = _ :=
        visitList_eq (harms _ List.mem_cons_self)
      have hhandlers : ∀ reader, visitArms p reader (i + 1 + counts body) i .handler false 1 handlers = _ :=
        visitArms_eq (fun _ _ _ _ => rfl) fun a ha => harms a (List.mem_cons_of_mem _ ha)
      rw [List.flatMap_cons, pass_append, ArmSpot.steps, ArmSpot.closing, List.append_nil]
      refine through_bind ?_
      dsimp only
      rw [hbody]
      refine through_bind ?_
      rw [hhandlers]
      exact through_bind_ok rfl
    | .cond site thenBody elsifs none =>
      rw [visit, henter, Statement.closing, nested_cond, Option.getD_none, List.append_nil, pass_append]
      rw [arms, Option.toList_none, List.map_nil, List.append_nil] at harms ⊢
      refine through_bind ?_
      refine (visitBranches_eq harms _ _).trans (through_bind ?_)
      rw [through_branch, pass_implicitElse, hexec]
      rfl
    | .cond site thenBody elsifs (some elseBody) =>
      rw [visit, henter, Statement.closing, List.append_nil, nested_cond, Option.getD_some, counts_append,
        ← Nat.add_assoc]
      rw [arms, ← List.cons_append, armSpots_append, Option.toList_some, List.map_singleton, armSpots_singleton,
        List.flatMap_cons, flatMap_numbered] at harms ⊢
      refine through_bind ?_
      rw [List.flatMap_append, pass_append]
      refine (visitBranches_eq (fun a ha => harms a (List.mem_append_left _ ha)) _ _).trans (through_bind ?_)
      rw [List.flatMap_singleton]
      exact visitLast_eq rfl (harms _ (List.mem_append_right _ List.mem_cons_self)) _ _
    | .choice site whens none =>
      rw [visit, henter, Statement.closing, List.append_nil, nested_choice, Option.getD_none, List.append_nil]
      rw [arms, Option.toList_none, List.map_nil, List.append_nil] at harms ⊢
      have hwhens : ∀ reader, visitArms p reader (i + 1) i .caseWhen true 1 whens = _ :=
        visitArms_eq (fun _ _ _ _ => rfl) harms
      refine through_bind ?_
      dsimp only
      rw [hwhens]
      exact through_bind_ok rfl
    | .choice site whens (some elseBody) =>
      rw [visit, henter, Statement.closing, List.append_nil, nested_choice, Option.getD_some, counts_append,
        ← Nat.add_assoc]
      rw [arms, armSpots_append, Option.toList_some, List.map_singleton, armSpots_singleton,
        flatMap_numbered] at harms ⊢
      have hwhens : ∀ reader, visitArms p reader (i + 1) i .caseWhen true 1 whens = _ :=
        visitArms_eq (fun _ _ _ _ => rfl) fun a ha => harms a (List.mem_append_left _ ha)
      refine through_bind ?_
      dsimp only
      rw [List.flatMap_append, pass_append, hwhens]
      refine through_bind ?_
      rw [List.flatMap_singleton]
      exact visitLast_eq rfl (harms _ (List.mem_append_right _ List.mem_cons_self)) _ _
    | .loop site kind body =>
      rw [visit, henter, Statement.closing, List.append_nil, nested_loop]
      rw [arms, armSpots_singleton] at harms ⊢
      rw [List.flatMap_singleton]
      refine through_bind ?_
      exact visitLast_eq rfl (harms _ List.mem_cons_self) _ _
    | .simple site kind fingerprint =>
      rw [visit, henter]
      exact through_bind_ok rfl

/-- What is passed along the tree of a copy, unless one of the steps stops the walk. -/
def items (proc : Procedure) (m : Numbering) (records : Option (List Record)) :
    Except (Stop WalkError) (List ReadItem) :=
  through ⟨m, proc.places, records.map List.toArray⟩ (Spot.root proc.body).steps
    ((Spot.root proc.body).steps.flatMap (Step.items ⟨m, proc.places, records.map List.toArray⟩))

/-- A walk makes its own of what is passed. -/
theorem read_eq (reader : Reader) (proc : Procedure) (m : Numbering) (records : Option (List Record)) :
    reader.read proc m records = (fun passed => passed.foldl take reader) <$> items proc m records := by
  have hvisit : visit _ _ 0 none 1 proc.body = _ :=
    visit_eq ⟨m, proc.places, records.map List.toArray⟩ (Spot.root proc.body) reader
  rw [Reader.read, hvisit, items, through_map, through_map]
  rfl

end Reading

theorem resultRows_eq (proc : Procedure) (m : Numbering) (records : Option (List Record)) :
    resultRows proc m records = List.filterMap ReadItem.row? <$> Reading.items proc m records := by
  rw [resultRows, Reading.read_eq, Functor.map_map]
  refine congrArg (· <$> _) (funext fun passed => ?_)
  rw [Reader.toRows_foldl_take, List.reverse_nil, List.nil_append]

theorem Coverage.counts_eq (proc : Procedure) (m : Numbering) (records : Option (List Record)) :
    counts proc m records = List.foldl CoverageCounts.addItem .zero <$> Reading.items proc m records := by
  rw [counts, Reading.read_eq, Functor.map_map]
  exact congrArg (· <$> _) (funext fun passed => Reader.toCounts_foldl_take passed .zero)

end ProcProfile
