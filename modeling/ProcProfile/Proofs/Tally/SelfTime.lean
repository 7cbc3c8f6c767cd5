import Mathlib.Tactic
import ProcProfile.Proofs.Tally
import ProcProfile.Tally.SelfTime

/-!
# Self times leave the counts alone

The walk that turns the times of a call into self times changes times only.

* `SelfTime.Keeps`: a walk that keeps a property of tallies;
* `SelfTime.settle_eq_ok`: the one change that the walk makes, to the times of a compound statement;
* `Tally.fold_keeps`: what this change keeps, the walk over a statement tree keeps;
* `Tally.fold_eq_ok`: so a call's executions reach its records as they were counted.
-/

namespace ProcProfile

/-- Two tallies of the same statements with the same executions. -/
structure Tally.SameCounts (t t' : Tally) : Prop where
  sites : t'.sites = t.sites
  exec : ∀ i, t'.exec i = t.exec i
  err : ∀ i, t'.err i = t.err i

theorem Tally.SameCounts.refl (t : Tally) : SameCounts t t := ⟨rfl, fun _ => rfl, fun _ => rfl⟩

theorem Tally.SameCounts.trans {t t' t'' : Tally} (h : SameCounts t t') (h' : SameCounts t' t'') :
    SameCounts t t'' :=
  ⟨h'.sites.trans h.sites, fun i => (h'.exec i).trans (h.exec i), fun i => (h'.err i).trans (h.err i)⟩

namespace SelfTime

variable {α β : Type} {P : Tally → Prop}

/-- A walk that keeps a property of tallies, whatever its answer is. -/
def Keeps (P : Tally → Prop) (x : SelfTime α) : Prop :=
  ∀ t answer t', x.run.run t = .ok (answer, t') → P t → P t'

theorem keeps_pure (a : α) : Keeps P (pure a) := by
  intro t answer t' h ht
  cases h
  exact ht

theorem keeps_bind {x : SelfTime α} {f : α → SelfTime β} (hx : Keeps P x) (hf : ∀ a, Keeps P (f a)) :
    Keeps P (x >>= f) := by
  intro t answer t' h ht
  rw [ExceptT.run_bind, StateT.run_bind] at h
  obtain ⟨⟨answer₁, t₁⟩, h₁, h⟩ := bind_eq_ok_iff.1 h
  have hfirst := hx t answer₁ t₁ h₁ ht
  cases answer₁ with
  | error e =>
    cases h
    exact hfirst
  | ok a => exact hf a t₁ answer t' h hfirst

theorem keeps_naturalId (x : Except WalkError α) : Keeps P (liftM x) := by
  intro t answer t' h ht
  cases h
  exact ht

theorem keeps_addTime (a b : Counter) : Keeps P (addTime a b) := by
  intro t answer t' h ht
  unfold addTime at h
  cases hadd : Counter.add a b with
  | error f => rw [hadd] at h; cases h
  | ok c => rw [hadd] at h; cases h; exact ht

/-- A timer with its self time in place of its inclusive time. -/
def settled (timer : Timer) (nested : Counter) : Timer :=
  let own := Counter.since timer.elapsed nested
  { timer with elapsed := own, maxElapsed := if timer.execCount = 1 then own else 0 }

/-- Settling a statement leaves the tally as it was, or takes the nested time away from one timer. -/
theorem settle_eq_ok {s : Statement} {id : Nat} {nested : Counter} {t t' : Tally}
    {answer : Except WalkError Counter} (h : (settle s id nested).run.run t = .ok (answer, t')) :
    t' = t ∨ ∃ timer, t.timers[id]? = some timer ∧
      t' = { t with timers := t.timers.setIfInBounds id (settled timer nested) } := by
  rw [settle, ExceptT.run_bind, StateT.run_bind] at h
  obtain ⟨⟨answer₁, t₁⟩, hget, h⟩ := bind_eq_ok_iff.1 h
  cases hget
  dsimp only at h
  split at h
  · cases h
    exact .inl rfl
  · rename_i timer htimer
    by_cases hcompound : s.isCompound
    · rw [if_pos hcompound, ExceptT.run_bind, StateT.run_bind] at h
      obtain ⟨⟨answer₂, t₂⟩, hset, h⟩ := bind_eq_ok_iff.1 h
      cases hset
      exact .inr ⟨timer, htimer, keeps_addTime (P := fun t' => t' = _) _ _ _ answer t' h rfl⟩
    · rw [if_neg hcompound] at h
      cases h
      exact .inl rfl

variable (m : Numbering) (places : Nat → Place)

mutual

/-- What settling a statement keeps, the walk over a statement keeps. -/
theorem keeps_visit (hsettle : ∀ s id nested, Keeps P (settle s id nested)) (i : Nat) (s : Statement) :
    Keeps P (visit m places i s) := by
  have hlast : ∀ (id : Nat) (nested : Counter) (j : Nat), Keeps P (do
      let time ← settle s id nested
      return (j, time)) := fun id nested j => keeps_bind (hsettle s id nested) fun _ => keeps_pure _
  match s with
  | .block _ _ body handlers =>
    rw [visit]
    exact keeps_bind (keeps_naturalId _) fun _ => keeps_bind (keeps_visitList hsettle _ _ body) fun _ =>
      keeps_bind (keeps_visitLists hsettle _ _ handlers) fun _ => hlast _ _ _
  | .cond _ thenBody elsifs none =>
    rw [visit]
    exact keeps_bind (keeps_naturalId _) fun _ => keeps_bind (keeps_visitList hsettle _ _ thenBody) fun _ =>
      keeps_bind (keeps_visitLists hsettle _ _ elsifs) fun _ => hlast _ _ _
  | .cond _ thenBody elsifs (some elseBody) =>
    rw [visit]
    exact keeps_bind (keeps_naturalId _) fun _ => keeps_bind (keeps_visitList hsettle _ _ thenBody) fun _ =>
      keeps_bind (keeps_visitLists hsettle _ _ elsifs) fun _ =>
      keeps_bind (keeps_visitList hsettle _ _ elseBody) fun _ => keeps_bind (keeps_addTime _ _) fun _ =>
      hlast _ _ _
  | .choice _ whens none =>
    rw [visit]
    exact keeps_bind (keeps_naturalId _) fun _ => keeps_bind (keeps_visitLists hsettle _ _ whens) fun _ =>
      hlast _ _ _
  | .choice _ whens (some elseBody) =>
    rw [visit]
    exact keeps_bind (keeps_naturalId _) fun _ => keeps_bind (keeps_visitLists hsettle _ _ whens) fun _ =>
      keeps_bind (keeps_visitList hsettle _ _ elseBody) fun _ => keeps_bind (keeps_addTime _ _) fun _ =>
      hlast _ _ _
  | .loop _ _ body =>
    rw [visit]
    exact keeps_bind (keeps_naturalId _) fun _ => keeps_bind (keeps_visitList hsettle _ _ body) fun _ =>
      hlast _ _ _
  | .simple .. =>
    rw [visit]
    exact keeps_bind (keeps_naturalId _) fun _ => hlast _ _ _

theorem keeps_visitList (hsettle : ∀ s id nested, Keeps P (settle s id nested)) (i : Nat) (acc : Counter)
    (list : List Statement) : Keeps P (visitList m places i acc list) := by
  match list with
  | [] =>
    rw [visitList]
    exact keeps_pure _
  | s :: rest =>
    rw [visitList]
    exact keeps_bind (keeps_visit hsettle i s) fun _ => keeps_bind (keeps_addTime _ _) fun _ =>
      keeps_visitList hsettle _ _ rest

theorem keeps_visitLists (hsettle : ∀ s id nested, Keeps P (settle s id nested)) (i : Nat) (acc : Counter)
    (lists : List (List Statement)) : Keeps P (visitLists m places i acc lists) := by
  match lists with
  | [] =>
    rw [visitLists]
    exact keeps_pure _
  | list :: rest =>
    rw [visitLists]
    exact keeps_bind (keeps_visitList hsettle i 0 list) fun _ => keeps_bind (keeps_addTime _ _) fun _ =>
      keeps_visitLists hsettle _ _ rest

end

end SelfTime

namespace Tally

/-- What holds of a tally and stays when the time of one statement becomes its self time holds after the
whole walk, also if the walk stops. -/
theorem fold_keeps {P : Tally → Prop} {t t' : Tally} {m : Numbering} {p : Procedure}
    {time : Except WalkError Counter}
    (hstep : ∀ (t : Tally) (id : Nat) (timer : Timer) (nested : Counter), P t → t.timers[id]? = some timer →
      P { t with timers := t.timers.setIfInBounds id (SelfTime.settled timer nested) })
    (h : t.fold m p = .ok (time, t')) (ht : P t) : P t' := by
  have hsettle : ∀ s id nested, SelfTime.Keeps P (SelfTime.settle s id nested) := by
    intro s id nested t answer t' hrun ht
    rcases SelfTime.settle_eq_ok hrun with rfl | ⟨timer, htimer, rfl⟩
    · exact ht
    · exact hstep t id timer nested ht htimer
  have hkeeps : SelfTime.Keeps P ((·.2) <$> SelfTime.visit m p.places 0 p.body) := by
    rw [map_eq_pure_bind]
    exact SelfTime.keeps_bind (SelfTime.keeps_visit m p.places hsettle 0 p.body) fun _ =>
      SelfTime.keeps_pure _
  exact hkeeps t time t' h ht

/-- Turning times into self times keeps the counts of a call, also if the walk stops. -/
theorem fold_eq_ok {t t' : Tally} {m : Numbering} {p : Procedure} {time : Except WalkError Counter}
    (h : t.fold m p = .ok (time, t')) : SameCounts t t' := by
  refine fold_keeps (fun t₁ id timer nested hsame htimer => hsame.trans ?_) h (.refl t)
  have hchanged := changed_set htimer (SelfTime.settled timer nested)
  exact ⟨hchanged.sites_eq htimer rfl, hchanged.exec_same htimer rfl, hchanged.err_same htimer rfl⟩

end Tally

end ProcProfile
