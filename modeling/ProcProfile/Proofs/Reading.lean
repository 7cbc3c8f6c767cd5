import Mathlib.Tactic
import ProcProfile.Proofs.Reading.Schedule

/-!
# How far a stored profile can be read

A walk along a stored profile asks for the record of each statement in pre-order, and stops at the first one
that it does not get.  The only other thing that stops it is a sum: the executions of the branches of an IF
are added up, and the sum may not fit.  Which of the two comes first is a matter of positions.

* `Reading.Served`, `Reading.Missed`: a statement gets its record, or does not, and why;
* `Reading.FirstMissed`: the first statement that does not get its record;
* `Reading.Fits`, `Reading.OverflowsAt`: sums that fit, and the position at which one does not;
* `Reading.items_eq_error_iff`, `Reading.exists_items_iff`: when and why a walk stops, and when it does not;
* `Reading.readings_fail_alike`: rows and coverage are given or refused together, for these reasons;
* `Reading.ReadableTo`, `Reading.Stopped`, `Reading.endsIn_items`: the same as what is known of an outcome.
-/

namespace ProcProfile

open Statement

namespace Reading

/-- What is read along the tree of a copy. -/
abbrev profileOf (proc : Procedure) (m : Numbering) (records : Option (List Record)) : Profile :=
  ⟨m, proc.places, records.map List.toArray⟩

variable (p : Profile) (body : Statement)

/-! ### Records -/

/-- The `i`-th statement gets its record: it is recognised as the `i`-th, and if there are records, the `i`-th of
them is of its line. -/
def Served (i : Nat) (s : Statement) : Prop :=
  p.numbering.naturalId s (p.places i) = .ok i ∧
    ∀ records, p.records = some records → ∃ record, records[i]? = some record ∧ record.line = s.line

/-- Why the `i`-th statement does not get its record. -/
inductive Missed (i : Nat) (s : Statement) : WalkError → Prop
  | unmapped (h : p.numbering.naturalId s (p.places i) = .error (.unmappedStatement s.line)) :
      Missed i s (.unmappedStatement s.line)
  | desync {id : Nat} (h : p.numbering.naturalId s (p.places i) = .ok id) (hother : id ≠ i) :
      Missed i s (.cursorDesync id i)
  | exhausted {records : Array Record} (h : p.numbering.naturalId s (p.places i) = .ok i)
      (hrecords : p.records = some records) (hend : records.size ≤ i) : Missed i s (.cursorExhausted i)
  | stale {records : Array Record} {record : Record} (h : p.numbering.naturalId s (p.places i) = .ok i)
      (hrecords : p.records = some records) (hrecord : records[i]? = some record)
      (hother : record.line ≠ s.line) : Missed i s (.staleRecord i s.line record.line)

/-- The statements before a position get their records. -/
def ServedTo (i : Nat) : Prop := ∀ j s, j < i → body.preorder[j]? = some s → Served p j s

/-- The first statement that does not get its record, and why. -/
def FirstMissed (i : Nat) (e : WalkError) : Prop :=
  ∃ s, body.preorder[i]? = some s ∧ ServedTo p body i ∧ Missed p i s e

variable {p body} {i : Nat} {s : Statement}

theorem exists_recordAt : (∃ record, recordAt p i s = .ok record) ↔ Served p i s := by
  unfold recordAt Served
  cases hid : p.numbering.naturalId s (p.places i) with
  | error e => simp [bind, Except.bind]
  | ok id =>
    by_cases hsame : i = id
    · subst hsame
      cases hrecords : p.records with
      | none => simp [bind, Except.bind, pure, Except.pure, Profile.next, hrecords]
      | some records =>
        cases hget : records[i]? with
        | none => simp [bind, Except.bind, Profile.next, hrecords, hget]
        | some record =>
          by_cases hline : record.line = s.line <;>
            simp [bind, Except.bind, pure, Except.pure, Profile.next, hrecords, hget, hline]
    · simp [bind, Except.bind, Profile.next, hsame, Ne.symm hsame]

theorem recordAt_eq_error_iff {e : WalkError} : recordAt p i s = .error e ↔ Missed p i s e := by
  constructor
  · intro h
    rcases bind_eq_error_iff.1 h with hid | ⟨id, hid, h⟩
    · obtain rfl : e = .unmappedStatement s.line := by
        unfold Numbering.naturalId at hid
        split at hid
        · cases hid
        · exact (Except.error.inj hid).symm
      exact .unmapped hid
    · have hnext : p.next i id s = .error e := by
        cases hnext : p.next i id s with
        | ok record => simp [hnext, bind, Except.bind, pure, Except.pure] at h
        | error e' => simpa [hnext, bind, Except.bind] using h
      unfold Profile.next at hnext
      split_ifs at hnext with hsame
      · cases hnext
        exact .desync hid (Ne.symm hsame)
      · obtain rfl := not_not.1 hsame
        cases hrecords : p.records with
        | none => simp [hrecords] at hnext
        | some records =>
          cases hget : records[i]? with
          | none =>
            simp only [hrecords, hget] at hnext
            cases hnext
            exact .exhausted hid hrecords (Array.getElem?_eq_none_iff.1 hget)
          | some record =>
            simp only [hrecords, hget] at hnext
            split_ifs at hnext with hline
            cases hnext
            exact .stale hid hrecords hget hline
  · intro h
    unfold recordAt
    cases h with
    | unmapped hid => rw [hid]; rfl
    | desync hid hother => simp [hid, bind, Except.bind, Profile.next, hother.symm]
    | exhausted hid hrecords hend => simp [hid, bind, Except.bind, Profile.next, hrecords, hend]
    | stale hid hrecords hrecord hother => simp [hid, bind, Except.bind, Profile.next, hrecords, hrecord, hother]

theorem Missed.not_served {e : WalkError} (h : Missed p i s e) : ¬ Served p i s := by
  rw [← exists_recordAt, recordAt_eq_error_iff.2 h]
  simp

theorem Missed.unique {e e' : WalkError} (h : Missed p i s e) (h' : Missed p i s e') : e = e' := by
  rw [← recordAt_eq_error_iff] at h h'
  exact Except.error.inj (h.symm.trans h')

theorem FirstMissed.unique {i' : Nat} {e e' : WalkError} (h : FirstMissed p body i e)
    (h' : FirstMissed p body i' e') : e = e' := by
  obtain ⟨s, hs, hbefore, hmissed⟩ := h
  obtain ⟨s', hs', hbefore', hmissed'⟩ := h'
  rcases Nat.lt_trichotomy i i' with hlt | rfl | hlt
  · exact absurd (hbefore' i s hlt hs) hmissed.not_served
  · cases hs.symm.trans hs'
    exact hmissed.unique hmissed'
  · exact absurd (hbefore i' s' hlt hs') hmissed'.not_served

/-! ### Sums -/

variable (p body)

/-- The branches of no IF were taken too often for their sum. -/
def Fits : Prop := ∀ k s, body.preorder[k]? = some s → branchExecs p k s < 2 ^ 64

instance : Decidable (Fits p body) :=
  decidable_of_iff (∀ x ∈ body.preorder.zipIdx, branchExecs p x.2 x.1 < 2 ^ 64)
    ⟨fun h k s hs => h (s, k) (List.mem_zipIdx_iff_getElem?.2 hs),
      fun h x hx => h x.2 x.1 (List.mem_zipIdx_iff_getElem?.1 hx)⟩

/-- An IF has an ELSIF arm that ends at a position, and its branches up to this one were taken too often. -/
def OverflowsAt (i : Nat) : Prop :=
  ∃ k site thenBody elsifs elseBody, body.preorder[k]? = some (.cond site thenBody elsifs elseBody) ∧
    ∃ n < elsifs.length, i = k + 1 + counts (thenBody :: elsifs.take (n + 1)).flatten ∧
      2 ^ 64 ≤ entriesSum p (k + 1) (thenBody :: elsifs.take (n + 1))

variable {p body}

/-- Some sum does not fit exactly if the sum of all branches does not. -/
theorem fits_iff : Fits p body ↔ ∀ i, ¬ OverflowsAt p body i := by
  constructor
  · rintro hfits i ⟨k, site, thenBody, elsifs, elseBody, hs, n, hn, -, hsum⟩
    have hall := hfits k _ hs
    rw [branchExecs, ← List.take_append_drop (n + 1) elsifs, ← List.cons_append, entriesSum_append] at hall
    omega
  · intro h k s hs
    by_contra hsum
    cases s with
    | cond site thenBody elsifs elseBody =>
      rw [branchExecs, not_lt] at hsum
      cases hlists : elsifs.length with
      | zero =>
        have := entries_lt p (k + 1) thenBody
        rw [List.length_eq_zero_iff.1 hlists, entriesSum, entriesSum] at hsum
        omega
      | succ n =>
        refine h _ ⟨k, site, thenBody, elsifs, elseBody, hs, n, by omega, rfl, ?_⟩
        rwa [List.take_of_length_le hlists.le]
    | _ => simp [branchExecs] at hsum

/-! ### Why a walk stops -/

variable (p body)

/-- Why a walk stops: at the first statement that does not get its record, unless a sum before it is too large; or
at a sum that is too large, if all statements before it get their records. -/
inductive Halts : Stop WalkError → Prop
  | error {i : Nat} {e : WalkError} (h : FirstMissed p body i e) (hfits : ∀ j ≤ i, ¬ OverflowsAt p body j) :
      Halts (.error e)
  | fault {i : Nat} (h : OverflowsAt p body i) (hbefore : ServedTo p body i) : Halts (.fault .addOverflow)

variable {p body}

theorem Halts.unique {stop stop' : Stop WalkError} (h : Halts p body stop) (h' : Halts p body stop') :
    stop = stop' := by
  -- a sum that is too large comes behind the first statement without its record
  have hlate : ∀ {i j e}, FirstMissed p body i e → ServedTo p body j → j ≤ i := by
    rintro i j e ⟨s, hs, -, hmissed⟩ hbefore
    by_contra hlt
    exact hmissed.not_served (hbefore i s (not_le.1 hlt) hs)
  cases h with
  | error h hfits =>
    cases h' with
    | error h' _ => rw [h.unique h']
    | fault hover hbefore => exact absurd hover (hfits _ (hlate h hbefore))
  | fault hover hbefore =>
    cases h' with
    | error h' hfits => exact absurd hover (hfits _ (hlate h' hbefore))
    | fault _ _ => rfl

/-! ### Step by step -/

theorem check_read_eq_ok_iff {c : Spot} : (Step.read c).check p = .ok () ↔ Served p c.index c.statement := by
  rw [← exists_recordAt, Step.check, map_eq_ok_iff]
  simp [Stop.ofError_eq_ok_iff]

theorem check_read_eq_error {c : Spot} {stop : Stop WalkError} (h : (Step.read c).check p = .error stop) :
    ∃ e, stop = .error e ∧ Missed p c.index c.statement e := by
  rw [Step.check] at h
  cases hrecord : recordAt p c.index c.statement with
  | ok record => simp [hrecord] at h
  | error e =>
    rw [hrecord] at h
    cases h
    exact ⟨e, rfl, recordAt_eq_error_iff.1 hrecord⟩

theorem check_sum_eq_ok_iff {outer : Nat} {taken : List (List Statement)} :
    (Step.sum outer taken).check p = .ok () ↔ entriesSum p (outer + 1) taken < 2 ^ 64 := by
  rw [Step.check]
  split_ifs with hfits
  · exact iff_of_true rfl hfits
  · exact iff_of_false (by simp) hfits

/-- If some first steps of a tree do not stop the walk, the statements that they read get their records. -/
theorem servedTo_of_front {front back : List Step} (hsteps : (Spot.root body).steps = front ++ back)
    (hfront : ∀ step ∈ front, step.check p = .ok ()) : ServedTo p body (front.filterMap Step.spot?).length := by
  intro j s hj hs
  obtain ⟨c, hc, rfl, rfl⟩ := Spot.exists_of_preorder hs
  have hall := Spot.filterMap_steps (Spot.root body)
  rw [hsteps, List.filterMap_append] at hall
  have hmem : c ∈ front.filterMap Step.spot? := by
    obtain ⟨k, hk⟩ := List.mem_iff_getElem?.1 hc
    obtain ⟨rfl, -⟩ := Spot.getElem?_all_root hk
    rw [← hall, List.getElem?_append_left hj] at hk
    exact List.mem_of_getElem? hk
  obtain ⟨step, hstep, hspot⟩ := List.mem_filterMap.1 hmem
  cases step with
  | read d =>
    cases hspot
    exact check_read_eq_ok_iff.1 (hfront _ hstep)
  | branch b => cases hspot
  | sum outer taken => cases hspot

/-- A walk that is stopped is stopped for a reason. -/
theorem halts_of_forM {stop : Stop WalkError} (h : forM (Spot.root body).steps (Step.check p) = .error stop) :
    Halts p body stop := by
  obtain ⟨front, step, back, hsteps, hfront, hstep⟩ := forM_eq_error_iff.1 h
  have hbefore := servedTo_of_front hsteps hfront
  have hpaced : Step.Paced 0 _ := (Spot.root body).paced_steps
  rw [hsteps, Step.paced_append, Nat.zero_add] at hpaced
  cases step with
  | branch b => cases hstep
  | read c =>
    obtain ⟨hc, hback⟩ := hpaced.2
    obtain ⟨e, rfl, hmissed⟩ := check_read_eq_error hstep
    have hmem : c ∈ (Spot.root body).all := by
      rw [← Spot.filterMap_steps, hsteps]
      simp [Step.spot?]
    refine .error ⟨c.statement, Spot.getElem?_preorder_of_mem hmem, hc ▸ hbefore, hmissed⟩ ?_
    rintro j hj ⟨k, site, thenBody, elsifs, elseBody, hs, n, hn, rfl, hlarge⟩
    have hsum := Spot.sum_mem_steps.2 ⟨site, thenBody, elsifs, elseBody, hs, n, hn, rfl⟩
    rw [hsteps, List.mem_append, List.mem_cons] at hsum
    rcases hsum with hsum | hsum | hsum
    · exact absurd (check_sum_eq_ok_iff.1 (hfront _ hsum)) (not_lt.2 hlarge)
    · cases hsum
    · have := hback.le_sum hsum
      omega
  | sum outer taken =>
    obtain ⟨hdue, -⟩ := hpaced.2
    have hmem : .sum outer taken ∈ (Spot.root body).steps := by rw [hsteps]; simp
    obtain ⟨site, thenBody, elsifs, elseBody, hs, n, hn, rfl⟩ := Spot.sum_mem_steps.1 hmem
    rw [Step.check] at hstep
    split_ifs at hstep with hfits
    cases hstep
    exact .fault ⟨outer, site, thenBody, elsifs, elseBody, hs, n, hn, hdue.symm, not_lt.1 hfits⟩ hbefore

/-- A walk passes the whole tree exactly if every statement gets its record and all sums fit. -/
theorem forM_eq_ok_iff_served : forM (Spot.root body).steps (Step.check p) = .ok () ↔
    Fits p body ∧ ∀ k s, body.preorder[k]? = some s → Served p k s := by
  rw [forM_eq_ok_iff]
  constructor
  · intro h
    refine ⟨fits_iff.2 ?_, fun k s hs => ?_⟩
    · rintro i ⟨k, site, thenBody, elsifs, elseBody, hs, n, hn, -, hlarge⟩
      have hsum := h _ (Spot.sum_mem_steps.2 ⟨site, thenBody, elsifs, elseBody, hs, n, hn, rfl⟩)
      exact absurd (check_sum_eq_ok_iff.1 hsum) (not_lt.2 hlarge)
    · obtain ⟨c, hc, rfl, rfl⟩ := Spot.exists_of_preorder hs
      exact check_read_eq_ok_iff.1 (h _ (Spot.mem_steps.2 ⟨c, hc, .inl rfl⟩))
  · rintro ⟨hfits, hserved⟩ step hstep
    cases step with
    | branch b => rfl
    | read c =>
      have hmem : c ∈ (Spot.root body).all := by
        rw [← Spot.filterMap_steps]
        exact List.mem_filterMap.2 ⟨_, hstep, rfl⟩
      exact check_read_eq_ok_iff.2 (hserved _ _ (Spot.getElem?_preorder_of_mem hmem))
    | sum outer taken =>
      rw [check_sum_eq_ok_iff]
      by_contra hlarge
      obtain ⟨site, thenBody, elsifs, elseBody, hs, n, hn, rfl⟩ := Spot.sum_mem_steps.1 hstep
      exact fits_iff.1 hfits _ ⟨outer, site, thenBody, elsifs, elseBody, hs, n, hn, rfl, not_lt.1 hlarge⟩

/-- The reasons to stop a walk exclude that it passes the whole tree. -/
theorem Halts.not_ok {stop : Stop WalkError} (h : Halts p body stop) :
    forM (Spot.root body).steps (Step.check p) ≠ .ok () := by
  intro hok
  obtain ⟨hfits, hserved⟩ := forM_eq_ok_iff_served.1 hok
  cases h with
  | error h _ =>
    obtain ⟨s, hs, -, hmissed⟩ := h
    exact hmissed.not_served (hserved _ s hs)
  | fault h _ => exact fits_iff.1 hfits _ h

theorem forM_eq_error_iff_halts {stop : Stop WalkError} :
    forM (Spot.root body).steps (Step.check p) = .error stop ↔ Halts p body stop := by
  constructor
  · exact halts_of_forM
  · intro h
    cases hforM : forM (Spot.root body).steps (Step.check p) with
    | ok _ => exact absurd hforM h.not_ok
    | error stop' => rw [(halts_of_forM hforM).unique h]

section Outcomes

variable {proc : Procedure} {m : Numbering} {records : Option (List Record)}

theorem items_eq_error_iff {stop : Stop WalkError} :
    items proc m records = .error stop ↔ Halts (profileOf proc m records) proc.body stop := by
  rw [items, through, ← forM_eq_error_iff_halts]
  cases forM (Spot.root proc.body).steps (Step.check _) <;> simp [Functor.map, Except.map]

theorem exists_items_iff : (∃ passed, items proc m records = .ok passed) ↔
    Fits (profileOf proc m records) proc.body ∧
      ∀ k s, proc.body.preorder[k]? = some s → Served (profileOf proc m records) k s := by
  rw [items, through, ← forM_eq_ok_iff_served]
  cases forM (Spot.root proc.body).steps (Step.check _) <;> simp [Functor.map, Except.map]

theorem resultRows_eq_error_iff {stop : Stop WalkError} :
    resultRows proc m records = .error stop ↔ items proc m records = .error stop := by
  rw [resultRows_eq]
  cases items proc m records <;> simp [Functor.map, Except.map]

theorem collect_eq_error_iff {stop : Stop WalkError} :
    Coverage.collect proc m records = .error stop ↔ items proc m records = .error stop := by
  rw [Coverage.collect, Coverage.counts_eq]
  cases items proc m records <;> simp [Functor.map, Except.map]

/-- **Rows and coverage are refused alike.**  Both are given, or both report the same error, or both stop at the same
fault.  They are given exactly if all sums fit and every statement gets its record.  If all sums fit, the error is that
of the first statement without its record; if not, that one has to come before the end of every ELSIF arm at which a sum
is too large. -/
theorem readings_fail_alike (proc : Procedure) (m : Numbering) (records : Option (List Record)) :
    ((∃ rows report, resultRows proc m records = .ok rows ∧ Coverage.collect proc m records = .ok report) ∨
      (∃ e, resultRows proc m records = .error (.error e) ∧
        Coverage.collect proc m records = .error (.error e)) ∨
      (resultRows proc m records = .error (.fault .addOverflow) ∧
        Coverage.collect proc m records = .error (.fault .addOverflow))) ∧
    ((∃ rows, resultRows proc m records = .ok rows) ↔ Fits (profileOf proc m records) proc.body ∧
      ∀ i s, proc.body.preorder[i]? = some s → Served (profileOf proc m records) i s) ∧
    (Fits (profileOf proc m records) proc.body → ∀ e, resultRows proc m records = .error (.error e) ↔
      ∃ i, FirstMissed (profileOf proc m records) proc.body i e) ∧
    ∀ stop, resultRows proc m records = .error stop ↔ Halts (profileOf proc m records) proc.body stop := by
  have hstop : ∀ stop, resultRows proc m records = .error stop ↔
      Halts (profileOf proc m records) proc.body stop := fun stop => by
    rw [resultRows_eq_error_iff, items_eq_error_iff]
  refine ⟨?_, ?_, fun hfits e => ?_, hstop⟩
  · cases hrows : resultRows proc m records with
    | error stop =>
      have hcollect := collect_eq_error_iff.2 (resultRows_eq_error_iff.1 hrows)
      cases (hstop stop).1 hrows with
      | error _ _ => exact .inr (.inl ⟨_, rfl, hcollect⟩)
      | fault _ _ => exact .inr (.inr ⟨rfl, hcollect⟩)
    | ok rows =>
      cases hcollect : Coverage.collect proc m records with
      | ok report => exact .inl ⟨rows, report, rfl, rfl⟩
      | error stop =>
        have herror := resultRows_eq_error_iff.2 (collect_eq_error_iff.1 hcollect)
        rw [hrows] at herror
        cases herror
  · rw [← exists_items_iff]
    rw [resultRows_eq]
    cases items proc m records <;> simp [Functor.map, Except.map]
  · rw [hstop]
    constructor
    · intro h
      cases h with
      | error h _ => exact ⟨_, h⟩
    · rintro ⟨i, h⟩
      exact .error h fun j _ => fits_iff.1 hfits j

end Outcomes

/-! ### Outcomes -/

variable (p body)

/-- The statements of a tree before a position have their records. -/
def ReadableTo (i : Nat) : Prop :=
  ∀ k < i, ∃ s record, body.preorder[k]? = some s ∧ recordAt p k s = .ok record

/-- Why a walk over a tree stops: at the first statement that does not get its record, or at an IF with
branches taken too often. -/
inductive Stopped : Stop WalkError → Prop
  | error {k : Nat} {s : Statement} {e : WalkError} (hs : body.preorder[k]? = some s)
      (hbefore : ReadableTo p body k) (he : recordAt p k s = .error e) : Stopped (.error e)
  | fault {k : Nat} {s : Statement} (hs : body.preorder[k]? = some s) (hsum : 2 ^ 64 ≤ branchExecs p k s) :
      Stopped (.fault .addOverflow)

variable {p body}

theorem ServedTo.readableTo (h : ServedTo p body i) (hi : i ≤ body.count) : ReadableTo p body i := by
  intro k hk
  have hlt : k < body.preorder.length := by
    rw [length_preorder]
    omega
  have hs := List.getElem?_eq_getElem hlt
  obtain ⟨record, hrecord⟩ := exists_recordAt.2 (h k _ hk hs)
  exact ⟨_, record, hs, hrecord⟩

theorem Halts.stopped {stop : Stop WalkError} (h : Halts p body stop) : Stopped p body stop := by
  cases h with
  | @error i e h _ =>
    obtain ⟨s, hs, hbefore, hmissed⟩ := h
    have hi := (List.getElem?_eq_some_iff.1 hs).1
    rw [length_preorder] at hi
    exact .error hs (hbefore.readableTo hi.le) (recordAt_eq_error_iff.2 hmissed)
  | @fault i h _ =>
    by_contra hstopped
    refine fits_iff.1 (fun k s hs => ?_) i h
    by_contra hsum
    exact hstopped (.fault hs (not_lt.1 hsum))

/-- A walk along a stored profile passes the whole tree, or it stops for a reason. -/
theorem endsIn_items (proc : Procedure) (m : Numbering) (records : Option (List Record)) :
    EndsIn (fun _ => ReadableTo ⟨m, proc.places, records.map List.toArray⟩ proc.body proc.body.count)
      (Stopped ⟨m, proc.places, records.map List.toArray⟩ proc.body) (items proc m records) := by
  cases hitems : items proc m records with
  | error stop => exact .error (items_eq_error_iff.1 hitems).stopped
  | ok passed =>
    obtain ⟨-, hserved⟩ := exists_items_iff.1 ⟨passed, hitems⟩
    have hto : ServedTo _ proc.body proc.body.count := fun j s _ hs => hserved j s hs
    exact .ok (hto.readableTo le_rfl)

end Reading

end ProcProfile
