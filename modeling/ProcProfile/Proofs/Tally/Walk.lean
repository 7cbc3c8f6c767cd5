import Mathlib.Tactic
import ProcProfile.Proofs.Numbering
import ProcProfile.Proofs.Tally.Inclusive
import ProcProfile.Proofs.Tally.SelfTime

/-!
# The walk that settles times

The walk over a tree turns the measured times of a tally into own times and gives the inclusive time of the root.
It changes the timers of compound statements only, and stops only if a sum of times overflows.

* `SelfTime.Ends`: a property of a walk's answer and of the tally that it leaves, and of a fault;
* `SelfTime.ends_settle`, `SelfTime.settleAt`: what settling one statement answers and leaves;
* `SelfTime.Settled`: the timers of some trees before and after they are settled;
* `SelfTime.Settles`, `SelfTime.settles_visit`: the walk over a statement settles its tree;
* `Tally.fold_settles`, `Tally.fold_gives`: so does the walk over the tree of a copy.
-/

namespace ProcProfile

open Statement

/-- The measured time of a statement. -/
def Tally.elapsed (t : Tally) (i : Nat) : Nat := t.timers[i]?.elim 0 fun timer => timer.elapsed.toNat

theorem Tally.elapsed_congr {t t' : Tally} {i : Nat} (h : t'.timers[i]? = t.timers[i]?) :
    t'.elapsed i = t.elapsed i := by
  rw [elapsed, h, elapsed]

theorem Tally.Changed.elapsed_eq {t t' : Tally} {id : Nat} {timer' : Timer} (h : t.Changed id timer' t')
    (i : Nat) : t'.elapsed i = if i = id then timer'.elapsed.toNat else t.elapsed i := by
  unfold Tally.elapsed
  rw [h.getElem?]
  split_ifs <;> rfl

namespace SelfTime

variable {α β : Type}

/-- A walk from a tally that answers, with a property of the answer and of the tally that it leaves, or faults for a
reason with a property. -/
def Ends (P : α → Tally → Prop) (bad : Fault → Prop) (x : SelfTime α) (t : Tally) : Prop :=
  EndsIn (fun out => ∃ a, out.1 = .ok a ∧ P a out.2) bad (x.run.run t)

section Ends

variable {P P' : α → Tally → Prop} {Q : β → Tally → Prop} {bad bad' : Fault → Prop} {x : SelfTime α} {t : Tally}

theorem ends_pure {a : α} (h : P a t) : Ends P bad (pure a) t := .ok ⟨a, rfl, h⟩

theorem Ends.imp (h : Ends P bad x t) (hP : ∀ a t', P a t' → P' a t') (hbad : ∀ f, bad f → bad' f) :
    Ends P' bad' x t :=
  EndsIn.imp h (fun _ ⟨a, ha, hout⟩ => ⟨a, ha, hP _ _ hout⟩) hbad

theorem Ends.bind {f : α → SelfTime β} (hx : Ends P bad x t) (hf : ∀ a t₁, P a t₁ → Ends Q bad (f a) t₁) :
    Ends Q bad (x >>= f) t := by
  unfold Ends
  rw [ExceptT.run_bind, StateT.run_bind]
  refine EndsIn.bind hx fun out hout => ?_
  obtain ⟨a, ha, hP⟩ := hout
  obtain ⟨answer, t₁⟩ := out
  cases ha
  exact hf a t₁ hP

theorem ends_ok {y : Except WalkError α} {a : α} (h : y = .ok a) (ha : P a t) :
    Ends P bad (liftM y : SelfTime α) t := by
  rw [h]
  exact .ok ⟨a, rfl, ha⟩

end Ends

/-- A sum of times passes the last value of a counter. -/
def Overflows (n : Nat) (f : Fault) : Prop := f = .addOverflow ∧ 2 ^ 64 ≤ n

theorem Overflows.mono {n n' : Nat} {f : Fault} (h : Overflows n f) (hle : n ≤ n') : Overflows n' f :=
  ⟨h.1, h.2.trans hle⟩

theorem ends_addTime (a b : Counter) (t : Tally) :
    Ends (fun c t' => c.toNat = a.toNat + b.toNat ∧ t' = t) (Overflows (a.toNat + b.toNat)) (addTime a b) t := by
  have hadd : EndsIn (fun c : Counter => c.toNat = a.toNat + b.toNat) (Overflows (a.toNat + b.toNat))
      (Counter.add a b) := Counter.endsIn_add fun hover => ⟨rfl, hover⟩
  unfold Ends addTime
  cases hsum : Counter.add a b with
  | ok c =>
    rw [hsum, endsIn_ok_iff] at hadd
    exact .ok ⟨c, rfl, hadd, rfl⟩
  | error f =>
    rw [hsum, endsIn_error_iff] at hadd
    exact .error hadd

theorem run_get_bind (f : Tally → SelfTime α) (t : Tally) :
    (get >>= f : SelfTime α).run.run t = (f t).run.run t := rfl

/-! ### Settling one statement -/

/-- What settling a statement leaves, given the time spent in its arms. -/
def settleAt (s : Statement) (i : Nat) (nested : Counter) (t : Tally) : Tally :=
  if s.isCompound then { t with timers := t.timers.modify i (settled · nested) } else t

theorem settleAt_eq (s : Statement) (i : Nat) (nested : Counter) (t : Tally) :
    settleAt s i nested t = { t with timers := (settleAt s i nested t).timers } := by
  unfold settleAt
  split_ifs <;> rfl

theorem size_settleAt (s : Statement) (i : Nat) (nested : Counter) (t : Tally) :
    (settleAt s i nested t).size = t.size := by
  unfold settleAt
  split_ifs
  · exact Array.size_modify ..
  · rfl

theorem getElem?_settleAt_ne {s : Statement} {i k : Nat} {nested : Counter} {t : Tally} (hk : k ≠ i) :
    (settleAt s i nested t).timers[k]? = t.timers[k]? := by
  unfold settleAt
  split_ifs
  · rw [Array.getElem?_modify, if_neg (Ne.symm hk)]
  · rfl

theorem modify_settled {timers : Array Timer} {i : Nat} {timer : Timer} (htimer : timers[i]? = some timer)
    (nested : Counter) :
    timers.modify i (settled · nested) = timers.setIfInBounds i (settled timer nested) := by
  obtain ⟨hi, -⟩ := Array.getElem?_eq_some_iff.1 htimer
  refine Array.ext_getElem? fun k => ?_
  rw [Array.getElem?_modify, Array.getElem?_setIfInBounds]
  split_ifs with hk
  · rw [← hk, htimer, Option.map_some]
  · rfl

theorem modify_of_none {timers : Array Timer} {i : Nat} (htimer : timers[i]? = none) (f : Timer → Timer) :
    timers.modify i f = timers := by
  refine Array.ext_getElem? fun k => ?_
  rw [Array.getElem?_modify]
  split_ifs with hk
  · rw [← hk, htimer, Option.map_none]
  · rfl

/-- Settling always answers, with the larger of the time of the statement and the time spent in its arms. -/
theorem ends_settle {s : Statement} {nested : Counter} (hleaf : s.isCompound = false → nested = 0) (i : Nat)
    (t : Tally) {bad : Fault → Prop} :
    Ends (fun v t' => v.toNat = max (t.elapsed i) nested.toNat ∧ t' = settleAt s i nested t) bad
      (settle s i nested) t := by
  unfold Ends Tally.elapsed settleAt
  rw [settle, run_get_bind]
  cases htimer : t.timers[i]? with
  | none =>
    refine .ok ⟨nested, rfl, by simp, ?_⟩
    rw [modify_of_none htimer, ite_self]
  | some timer =>
    dsimp only [Option.elim_some]
    by_cases hcompound : s.isCompound
    · rw [if_pos hcompound, if_pos hcompound, modify_settled htimer]
      have hsince := Counter.toNat_since timer.elapsed nested
      have hfits : nested.toNat + (Counter.since timer.elapsed nested).toNat < 2 ^ 64 := by
        have := nested.toNat_lt
        have := timer.elapsed.toNat_lt
        omega
      have hadd := ends_addTime nested (Counter.since timer.elapsed nested)
        { t with timers := t.timers.setIfInBounds i (settled timer nested) }
      refine EndsIn.imp hadd (fun out hout => ?_) fun f hf => absurd hf.2 (not_le.2 hfits)
      obtain ⟨v, hv, hvalue, hleft⟩ := hout
      exact ⟨v, hv, by omega, hleft⟩
    · rw [if_neg hcompound, if_neg hcompound]
      have hzero : nested.toNat = 0 := by rw [hleaf (by simpa using hcompound)]; rfl
      exact .ok ⟨timer.elapsed, rfl, by omega, rfl⟩

/-! ### Settling trees -/

/-- The timer of the statement at position `k` after settling its tree: that of a compound statement has its own time
in place of the measured one, and that of a simple one stays. -/
def SettledAt (t : Tally) (k : Nat) (s : Statement) (t' : Tally) : Prop :=
  if s.isCompound then
    ∃ nested : Counter, nested.toNat = inclusives t.elapsed (k + 1) s.nested ∧
      t'.timers[k]? = t.timers[k]?.map (settled · nested)
  else t'.timers[k]? = t.timers[k]?

namespace SettledAt

variable {t t₁ t₂ : Tally} {k : Nat} {s : Statement}

theorem elapsed_eq (h : SettledAt t k s t₁) : t₁.elapsed k = own t.elapsed k s := by
  unfold SettledAt at h
  rw [own_eq_sub]
  split_ifs at h with hcompound
  · obtain ⟨nested, hnested, htimer⟩ := h
    rw [← hnested, Tally.elapsed, Tally.elapsed, htimer]
    cases t.timers[k]? with
    | none => simp
    | some timer => exact Counter.toNat_since timer.elapsed nested
  · rw [nested_of_simple (by simpa using hcompound), inclusives_nil, Nat.sub_zero]
    exact Tally.elapsed_congr h

/-- Only the timer that is left matters … -/
theorem trans_left (h : SettledAt t k s t₁) (hsame : t₂.timers[k]? = t₁.timers[k]?) : SettledAt t k s t₂ := by
  unfold SettledAt at h ⊢
  rwa [hsame]

/-- … and only the timers of the tree before it was settled. -/
theorem trans_right (h : SettledAt t₁ k s t₂)
    (hsame : ∀ j, k ≤ j → j < k + s.count → t₁.timers[j]? = t.timers[j]?) : SettledAt t k s t₂ := by
  have hcount := s.count_eq
  have hnested : inclusives t₁.elapsed (k + 1) s.nested = inclusives t.elapsed (k + 1) s.nested :=
    inclusives_congr fun j hj hj' => Tally.elapsed_congr (hsame j (by omega) (by omega))
  unfold SettledAt at h ⊢
  rwa [hnested, hsame k le_rfl (by omega)] at h

end SettledAt

/-- A tally in which the times of the trees of a list, from position `i` on, have become own times. -/
structure Settled (t : Tally) (i : Nat) (list : List Statement) (t' : Tally) : Prop where
  frame : t' = { t with timers := t'.timers }
  size : t'.size = t.size
  settled : AllFrom (fun k s => SettledAt t k s t') i (preorders list)
  others : ∀ k, k < i ∨ i + counts list ≤ k → t'.timers[k]? = t.timers[k]?

theorem settled_nil (t : Tally) (i : Nat) : Settled t i [] t := ⟨rfl, rfl, allFrom_nil, fun _ _ => rfl⟩

namespace Settled

variable {t t₁ t₂ : Tally} {i j : Nat} {s : Statement} {list list' : List Statement}

theorem own (h : Settled t i list t₁) : AllFrom (fun k s => t₁.elapsed k = own t.elapsed k s) i (preorders list) :=
  h.settled.imp fun _ _ _ _ hk => hk.elapsed_eq

theorem inclusives_eq (h : Settled t i list t₁) (hj : i + counts list ≤ j) :
    inclusives t₁.elapsed j list' = inclusives t.elapsed j list' :=
  inclusives_congr fun k _ _ => Tally.elapsed_congr (h.others k (.inr (by omega)))

theorem append (h : Settled t i list t₁) (h' : Settled t₁ (i + counts list) list' t₂) :
    Settled t i (list ++ list') t₂ := by
  refine ⟨?_, h'.size.trans h.size, allFrom_preorders_append.2 ⟨?_, ?_⟩, fun k hk => ?_⟩
  · rw [h'.frame, h.frame]
  · refine h.settled.imp fun k s _ hk hs => hs.trans_left (h'.others k (.inl ?_))
    rwa [length_preorders] at hk
  · refine h'.settled.imp fun k s hk _ hs => hs.trans_right fun j hj _ => h.others j (.inr (by omega))
  · rw [counts_append] at hk
    rw [h'.others k (by omega), h.others k (by omega)]

/-- Settling a statement after what is inside it settles its tree. -/
theorem settle (h : Settled t (i + 1) s.nested t₁) {nested : Counter}
    (hnested : nested.toNat = inclusives t.elapsed (i + 1) s.nested) :
    Settled t i [s] (settleAt s i nested t₁) := by
  have hcount := s.count_eq
  have hroot : t₁.timers[i]? = t.timers[i]? := h.others i (.inl (by omega))
  refine ⟨?_, (size_settleAt ..).trans h.size, ?_, fun k hk => ?_⟩
  · rw [settleAt_eq, h.frame]
  · rw [preorders_cons, preorders_nil, List.append_nil, allFrom_preorder]
    refine ⟨?_, h.settled.imp fun k c hk _ hc => hc.trans_left (getElem?_settleAt_ne (by omega))⟩
    unfold SettledAt settleAt
    split_ifs
    · refine ⟨nested, hnested, ?_⟩
      rw [Array.getElem?_modify, if_pos rfl, hroot]
    · exact hroot
  · rw [counts_cons, counts_nil] at hk
    rw [getElem?_settleAt_ne (by omega), h.others k (by omega)]

end Settled

/-! ### From statement to statement -/

/-- A walk that settles the statements of a list from position `i` on and adds their times to `acc`, unless the sum
overflows. -/
def Settles (x : SelfTime Visited) (t : Tally) (i : Nat) (acc : Counter) (list : List Statement) : Prop :=
  Ends (fun a t' => a.1 = i + counts list ∧ a.2.toNat = acc.toNat + inclusives t.elapsed i list ∧
    Settled t i list t') (Overflows (acc.toNat + inclusives t.elapsed i list)) x t

section Settles

variable {t : Tally} {i : Nat} {acc : Counter} {list list' : List Statement} {x : SelfTime Visited}

theorem settles_nil (t : Tally) (i : Nat) (acc : Counter) : Settles (pure (i, acc)) t i acc [] :=
  ends_pure ⟨by simp, by simp, settled_nil t i⟩

/-- A walk over one list and then over the next. -/
theorem Settles.append {f : Visited → SelfTime Visited} (hx : Settles x t i acc list)
    (hf : ∀ v t₁, Settled t i list t₁ → Settles (f (i + counts list, v)) t₁ (i + counts list) v list') :
    Settles (x >>= f) t i acc (list ++ list') := by
  unfold Settles
  rw [inclusives_append, counts_append, ← Nat.add_assoc, ← Nat.add_assoc]
  refine (hx.imp (fun _ _ h => h) fun _ h => h.mono (Nat.le_add_right ..)).bind fun a t₁ ha => ?_
  obtain ⟨j, v⟩ := a
  obtain ⟨rfl, hvalue, hsettled⟩ := ha
  have hrest := hf v t₁ hsettled
  unfold Settles at hrest
  rw [hsettled.inclusives_eq le_rfl, hvalue] at hrest
  exact hrest.imp (fun a t' h => ⟨h.1, h.2.1, hsettled.append h.2.2⟩) fun _ h => h

/-- A walk whose time is added up apart. -/
theorem Settles.addTo {f : Nat → Counter → SelfTime Visited} (hx : Settles x t i 0 list) (acc : Counter)
    (hf : ∀ v t₁, Settled t i list t₁ → Settles (f (i + counts list) v) t₁ (i + counts list) v list') :
    Settles (do let a ← x; f a.1 (← addTime acc a.2)) t i acc (list ++ list') := by
  have hadded : Settles (do let a ← x; let v ← addTime acc a.2; return (a.1, v)) t i acc list := by
    refine (hx.imp (fun _ _ h => h) fun _ h => h.mono (by simp)).bind fun a t₁ ha => ?_
    obtain ⟨hpos, hvalue, hsettled⟩ := ha
    rw [UInt64.toNat_zero, Nat.zero_add] at hvalue
    have hsum := ends_addTime acc a.2 t₁
    rw [hvalue] at hsum
    refine hsum.bind fun v t₂ hv => ?_
    obtain ⟨hv, rfl⟩ := hv
    exact ends_pure ⟨hpos, hv, hsettled⟩
  have hboth := hadded.append (f := fun a => f a.1 a.2) hf
  simpa only [bind_assoc, pure_bind] using hboth

end Settles

section Visit

variable {m : Numbering} {places : Nat → Place}

/-- The walk over what is inside a statement, from position `i` on. -/
def inside (m : Numbering) (places : Nat → Place) (i : Nat) : Statement → SelfTime Visited
  | .block _ _ body handlers => do
    let a ← visitList m places i 0 body
    visitLists m places a.1 a.2 handlers
  | .cond _ thenBody elsifs none => do
    let a ← visitList m places i 0 thenBody
    visitLists m places a.1 a.2 elsifs
  | .cond _ thenBody elsifs (some elseBody) => do
    let a ← visitList m places i 0 thenBody >>= fun a => visitLists m places a.1 a.2 elsifs
    let b ← visitList m places a.1 0 elseBody
    return (b.1, ← addTime a.2 b.2)
  | .choice _ whens none => visitLists m places i 0 whens
  | .choice _ whens (some elseBody) => do
    let a ← visitLists m places i 0 whens
    let b ← visitList m places a.1 0 elseBody
    return (b.1, ← addTime a.2 b.2)
  | .loop _ _ body => visitList m places i 0 body
  | .simple .. => pure (i, 0)

/-- A statement is settled after what is inside it. -/
theorem visit_eq (i : Nat) (s : Statement) :
    visit m places i s = (do
      let id ← m.naturalId s (places i)
      let a ← inside m places (i + 1) s
      return (a.1, ← settle s id a.2)) := by
  cases s with
  | block site label body handlers => simp only [visit, inside, bind_assoc]
  | cond site thenBody elsifs elseBody =>
    cases elseBody with
    | none => simp only [visit, inside, bind_assoc]
    | some elseBody => simp only [visit, inside, bind_assoc, pure_bind]
  | choice site whens elseBody =>
    cases elseBody with
    | none => simp only [visit, inside]
    | some elseBody => simp only [visit, inside, bind_assoc, pure_bind]
  | loop site kind body => simp only [visit, inside]
  | simple site kind fingerprint => simp only [visit, inside, pure_bind]

/-- The statements of a list are recognised by their positions. -/
def Recognised (m : Numbering) (places : Nat → Place) (i : Nat) (list : List Statement) : Prop :=
  AllFrom (fun k s => m.naturalId s (places k) = .ok k) i list

/-- The walk over a statement settles its tree wherever it stands. -/
def Walks (m : Numbering) (places : Nat → Place) (s : Statement) : Prop :=
  ∀ (t : Tally) (i : Nat), Recognised m places i s.preorder → Settles (visit m places i s) t i 0 [s]

theorem settles_visitList {list : List Statement} (hwalks : ∀ s ∈ list, Walks m places s) {i : Nat}
    (hids : Recognised m places i (preorders list)) (t : Tally) (acc : Counter) :
    Settles (visitList m places i acc list) t i acc list := by
  induction list generalizing t i acc with
  | nil =>
    rw [visitList]
    exact settles_nil t i acc
  | cons s rest ih =>
    obtain ⟨hhead, hrest⟩ := allFrom_preorders_cons.1 hids
    rw [visitList]
    refine (hwalks s (by simp) t i hhead).addTo acc (f := fun j v => visitList m places j v rest) fun v t₁ _ => ?_
    rw [show i + counts [s] = i + s.count by simp]
    exact ih (fun c hc => hwalks c (by simp [hc])) hrest t₁ v

theorem settles_visitLists {lists : List (List Statement)} (hwalks : ∀ s ∈ lists.flatten, Walks m places s)
    {i : Nat} (hids : Recognised m places i (preorders lists.flatten)) (t : Tally) (acc : Counter) :
    Settles (visitLists m places i acc lists) t i acc lists.flatten := by
  induction lists generalizing t i acc with
  | nil =>
    rw [visitLists]
    exact settles_nil t i acc
  | cons list rest ih =>
    rw [List.flatten_cons] at hwalks hids ⊢
    obtain ⟨hhead, hrest⟩ := allFrom_preorders_append.1 hids
    have hhead := settles_visitList (fun s hs => hwalks s (List.mem_append_left _ hs)) hhead t 0
    rw [visitLists]
    refine hhead.addTo acc (f := fun j v => visitLists m places j v rest) fun v t₁ _ => ?_
    exact ih (fun c hc => hwalks c (List.mem_append_right _ hc)) hrest t₁ v

/-- The arms of a statement: a list and then more lists. -/
theorem settles_arms {list : List Statement} {lists : List (List Statement)}
    (hwalks : ∀ s ∈ list ++ lists.flatten, Walks m places s) {i : Nat}
    (hids : Recognised m places i (preorders (list ++ lists.flatten))) (t : Tally) :
    Settles (do let a ← visitList m places i 0 list; visitLists m places a.1 a.2 lists) t i 0
      (list ++ lists.flatten) := by
  obtain ⟨hlist, hlists⟩ := allFrom_preorders_append.1 hids
  refine (settles_visitList (fun s hs => hwalks s (List.mem_append_left _ hs)) hlist t 0).append fun v t₁ _ => ?_
  exact settles_visitLists (fun s hs => hwalks s (List.mem_append_right _ hs)) hlists t₁ v

/-- The arms of a statement and its last arm, whose time is added up apart. -/
theorem Settles.else {t : Tally} {i : Nat} {x : SelfTime Visited} {list elseBody : List Statement}
    (hx : Settles x t i 0 list) (hwalks : ∀ s ∈ elseBody, Walks m places s)
    (hids : Recognised m places (i + counts list) (preorders elseBody)) :
    Settles (do
      let a ← x
      let b ← visitList m places a.1 0 elseBody
      return (b.1, ← addTime a.2 b.2)) t i 0 (list ++ elseBody) := by
  refine hx.append fun v t₁ _ => ?_
  have hadded := (settles_visitList hwalks hids t₁ 0).addTo v (f := fun j v => pure (j, v)) fun w t₂ _ =>
    settles_nil t₂ _ w
  rwa [List.append_nil] at hadded

/-- The walk over what is inside a statement, arm by arm. -/
theorem settles_inside {s : Statement} (hwalks : ∀ c ∈ s.nested, Walks m places c) {i : Nat}
    (hids : Recognised m places i (preorders s.nested)) (t : Tally) :
    Settles (inside m places i s) t i 0 s.nested := by
  cases s with
  | block site label body handlers =>
    rw [nested_block] at hwalks hids ⊢
    exact settles_arms hwalks hids t
  | cond site thenBody elsifs elseBody =>
    cases elseBody with
    | none =>
      rw [nested_cond, Option.getD_none, List.append_nil] at hwalks hids ⊢
      exact settles_arms hwalks hids t
    | some elseBody =>
      rw [nested_cond, Option.getD_some] at hwalks hids ⊢
      obtain ⟨harms, helse⟩ := allFrom_preorders_append.1 hids
      have harms := settles_arms (fun c hc => hwalks c (List.mem_append_left _ hc)) harms t
      exact harms.else (fun c hc => hwalks c (List.mem_append_right _ hc)) helse
  | choice site whens elseBody =>
    cases elseBody with
    | none =>
      rw [nested_choice, Option.getD_none, List.append_nil] at hwalks hids ⊢
      exact settles_visitLists hwalks hids t 0
    | some elseBody =>
      rw [nested_choice, Option.getD_some] at hwalks hids ⊢
      obtain ⟨hwhens, helse⟩ := allFrom_preorders_append.1 hids
      have hwhens := settles_visitLists (fun c hc => hwalks c (List.mem_append_left _ hc)) hwhens t 0
      exact hwhens.else (fun c hc => hwalks c (List.mem_append_right _ hc)) helse
  | loop site kind body =>
    rw [nested_loop] at hwalks hids ⊢
    exact settles_visitList hwalks hids t 0
  | simple site kind fingerprint => exact settles_nil t i 0

/-- The walk over a statement leaves own times in the tally and gives the inclusive time. -/
theorem settles_visit (s : Statement) : Walks m places s := by
  induction s using nested_induction with
  | step s ih =>
    intro t i hids
    obtain ⟨hid, hinside⟩ := allFrom_preorder.1 hids
    have hcount := s.count_eq
    have htimes : inclusives t.elapsed i [s] = max (t.elapsed i) (inclusives t.elapsed (i + 1) s.nested) := by
      rw [inclusives_cons, inclusives_nil, Nat.add_zero, inclusive_eq_max]
    unfold Settles
    rw [visit_eq, htimes]
    have hname : ∀ bad, Ends (fun id t' => id = i ∧ t' = t) bad
        (liftM (m.naturalId s (places i)) : SelfTime Nat) t := fun _ => ends_ok hid ⟨rfl, rfl⟩
    refine (hname _).bind fun id t₀ h₀ => ?_
    obtain ⟨rfl, rfl⟩ := h₀
    refine ((settles_inside ih hinside t₀).imp (fun _ _ h => h) fun _ h => h.mono (by simp)).bind fun a t₁ ha => ?_
    obtain ⟨hpos, hvalue, hsettled⟩ := ha
    rw [UInt64.toNat_zero, Nat.zero_add] at hvalue
    have hleaf : s.isCompound = false → a.2 = 0 := by
      intro hsimple
      rw [nested_of_simple hsimple, inclusives_nil] at hvalue
      exact UInt64.toNat_inj.1 hvalue
    refine (ends_settle hleaf id t₁).bind fun v t₂ hv => ?_
    obtain ⟨hv, rfl⟩ := hv
    refine ends_pure ⟨?_, ?_, hsettled.settle hvalue⟩
    · rw [hpos, counts_cons, counts_nil]
      omega
    · rw [hv, hvalue, Tally.elapsed_congr (hsettled.others id (.inl (by omega)))]
      simp

end Visit

end SelfTime

/-- The walk over the tree of a numbered copy leaves own times and gives the inclusive time of the root, unless that
overflows. -/
theorem Tally.fold_settles {p : Procedure} {m : Numbering} (hbuild : Numbering.build p = .ok m) (t : Tally) :
    EndsIn
      (fun out => ∃ v, out.1 = .ok v ∧ v.toNat = inclusive t.elapsed 0 p.body ∧
        SelfTime.Settled t 0 [p.body] out.2)
      (SelfTime.Overflows (inclusive t.elapsed 0 p.body)) (t.fold m p) := by
  have hids : SelfTime.Recognised m p.places 0 p.body.preorder := by
    intro k s hs
    rw [Nat.zero_add]
    exact Numbering.naturalId_of_build hbuild hs
  have hwalk := SelfTime.settles_visit p.body t 0 hids
  simp only [SelfTime.Settles, inclusives_cons, inclusives_nil, UInt64.toNat_zero, Nat.zero_add, Nat.add_zero] at hwalk
  have hfold : SelfTime.Ends
      (fun v t' => v.toNat = inclusive t.elapsed 0 p.body ∧ SelfTime.Settled t 0 [p.body] t')
      (SelfTime.Overflows (inclusive t.elapsed 0 p.body)) ((·.2) <$> SelfTime.visit m p.places 0 p.body) t := by
    rw [map_eq_pure_bind]
    exact hwalk.bind fun a t' ha => SelfTime.ends_pure ha.2
  exact hfold

/-- The walk over the tree of a copy leaves own times, if the times fit. -/
theorem Tally.fold_gives {t : Tally} {p : Procedure} {m : Numbering} (hbuild : Numbering.build p = .ok m)
    (hfit : inclusive t.elapsed 0 p.body < 2 ^ 64) :
    ∃ v t', t.fold m p = .ok (.ok v, t') ∧ v.toNat = inclusive t.elapsed 0 p.body ∧ t'.size = t.size ∧
      AllFrom (fun k s => t'.elapsed k = own t.elapsed k s) 0 p.body.preorder := by
  have hends := t.fold_settles hbuild
  cases hfold : t.fold m p with
  | error f =>
    rw [hfold, endsIn_error_iff] at hends
    exact absurd hends.2 (not_le.2 hfit)
  | ok out =>
    rw [hfold, endsIn_ok_iff] at hends
    obtain ⟨v, hv, hvalue, hsettled⟩ := hends
    exact ⟨v, out.2, by rw [← hv], hvalue, hsettled.size, by simpa using hsettled.own⟩

end ProcProfile
