import Mathlib.Tactic
import ProcProfile.Proofs.Tally.Walk

/-!
# Only a sum stops a call

A tally takes every report, and closes what runs, unless a sum overflows.  The walk over the tree that was
numbered recognises every statement of it, so that it too answers unless a sum overflows.

* `Tally.endsIn_begin`, `Tally.endsIn_finish`, `Tally.endsIn_closeOpen`: operations of a tally, which also keep
  the time when the call began;
* `SelfTime.Answers`, `Tally.answers_fold`: the walk over any tree, which may be refused;
* `Tally.endsIn_fold`: the walk over the tree of a numbered copy, which is not.
-/

namespace ProcProfile

open Statement

theorem Timer.endsIn_stop (t : Timer) (startedAt now rows : Counter) (isError : Bool) :
    EndsIn (fun _ => True) (· = .addOverflow) (t.stop startedAt now rows isError) := by
  unfold stop
  refine .bind (Counter.endsIn_add fun _ => rfl) fun _ _ => .bind (Counter.endsIn_add fun _ => rfl) fun _ _ =>
    .bind (Counter.endsIn_add fun _ => rfl) fun _ _ => ?_
  cases isError with
  | false => exact .ok trivial
  | true => exact .bind (Counter.endsIn_add fun _ => rfl) fun _ _ => .ok trivial

namespace Tally

variable (t : Tally) (now : Counter)

theorem endsIn_close (id : Nat) (rows : Counter) (isError : Bool) :
    EndsIn (fun out => out.1.startedAt = t.startedAt) (· = .addOverflow) (t.close id now rows isError) := by
  unfold close
  split
  · exact .ok rfl
  · split
    · exact .ok rfl
    · exact (Timer.endsIn_stop ..).bind fun _ _ => .ok rfl

theorem endsIn_closeAll (ids : List Nat) :
    EndsIn (fun out => out.1.startedAt = t.startedAt) (· = .addOverflow) (t.closeAll now ids) := by
  induction ids generalizing t with
  | nil => exact .ok rfl
  | cons id rest ih =>
    rw [closeAll]
    refine (t.endsIn_close now id 0 true).bind fun first hfirst => ?_
    refine (ih first.1).bind fun last hlast => ?_
    exact .ok (hlast.trans hfirst)

theorem endsIn_closeUntracked (keep : Option Nat) :
    EndsIn (fun out => out.1.startedAt = t.startedAt) (· = .addOverflow) (t.closeUntracked keep now) := by
  rw [closeUntracked]
  exact (t.endsIn_closeAll now _).bind fun _ hout => .ok hout

theorem endsIn_finish (id : Nat) (rows : Counter) (isError : Bool) :
    EndsIn (fun t' => t'.startedAt = t.startedAt) (· = .addOverflow) (t.finish id now rows isError) := by
  have hlast : ∀ t₁ : Tally, t₁.startedAt = t.startedAt →
      EndsIn (fun t' => t'.startedAt = t.startedAt) (· = .addOverflow) (do
        let out ← t₁.close id now rows isError
        return out.1) :=
    fun t₁ h₁ => (t₁.endsIn_close now id rows isError).bind fun _ hout => .ok (hout.trans h₁)
  rw [finish]
  by_cases hstack : t.stack.contains id
  · rw [if_pos hstack]
    refine (endsIn_closeAll _ now _).bind fun out hout => ?_
    dsimp only
    split_ifs
    · exact ((out.1.endsIn_closeUntracked now (some id)).map fun _ h => h.trans hout).bind hlast
    · exact hlast out.1 hout
  · rw [if_neg hstack]
    split_ifs
    · exact hlast { t with untracked := t.untracked - 1 } rfl
    · exact hlast t rfl

theorem endsIn_begin (id : Nat) :
    EndsIn (fun t' => t'.startedAt = t.startedAt) (· = .addOverflow) (t.begin id now) := by
  have hstart : ∀ t₁ : Tally, (t₁.start id now).startedAt = t₁.startedAt := by
    intro t₁
    unfold start
    dsimp only
    split_ifs <;> rfl
  rw [begin]
  split_ifs with hsize hopen
  · exact (t.endsIn_finish now id 0 true).bind fun t₁ h₁ => .ok ((hstart t₁).trans h₁)
  · exact .ok (hstart t)
  · exact .ok rfl

theorem endsIn_closeOpen :
    EndsIn (fun _ => True) (· = .addOverflow) (t.closeOpen now) := by
  rw [closeOpen]
  refine (endsIn_closeAll _ now _).bind fun out _ => ?_
  dsimp only
  split_ifs
  · exact (out.1.endsIn_closeUntracked now none).bind fun _ _ => .ok trivial
  · exact .ok trivial

end Tally

namespace SelfTime

variable {α β : Type}

/-- A walk that answers or is refused, unless a sum overflows. -/
def Answers (x : SelfTime α) : Prop := ∀ t, EndsIn (fun _ => True) (· = .addOverflow) (x.run.run t)

theorem answers_pure (a : α) : Answers (pure a) := fun _ => .ok trivial

theorem Answers.bind {x : SelfTime α} {f : α → SelfTime β} (hx : Answers x) (hf : ∀ a, Answers (f a)) :
    Answers (x >>= f) := by
  intro t
  rw [ExceptT.run_bind, StateT.run_bind]
  refine (hx t).bind fun out _ => ?_
  obtain ⟨answer | a, t₁⟩ := out
  · exact .ok trivial
  · exact hf a t₁

theorem answers_liftM (y : Except WalkError α) : Answers (liftM y : SelfTime α) := by
  intro t
  cases y <;> exact .ok trivial

theorem answers_addTime (a b : Counter) : Answers (addTime a b) :=
  fun t => EndsIn.imp (ends_addTime a b t) (fun _ _ => trivial) fun _ hf => hf.1

theorem answers_settle (s : Statement) (id : Nat) (nested : Counter) : Answers (settle s id nested) := by
  intro t
  unfold settle
  rw [run_get_bind]
  split
  · exact answers_pure _ t
  · by_cases hcompound : s.isCompound = true
    · rw [if_pos hcompound]
      exact answers_addTime _ _ _
    · rw [if_neg hcompound]
      exact answers_pure _ t

variable {m : Numbering} {places : Nat → Place}

theorem answers_visitList {list : List Statement} (h : ∀ s ∈ list, ∀ i, Answers (visit m places i s)) (i : Nat)
    (acc : Counter) : Answers (visitList m places i acc list) := by
  induction list generalizing i acc with
  | nil =>
    rw [visitList]
    exact answers_pure _
  | cons s rest ih =>
    rw [visitList]
    exact (h s (by simp) i).bind fun _ => (answers_addTime _ _).bind fun _ =>
      ih (fun s hs => h s (by simp [hs])) _ _

theorem answers_visitLists {lists : List (List Statement)}
    (h : ∀ s ∈ lists.flatten, ∀ i, Answers (visit m places i s)) (i : Nat) (acc : Counter) :
    Answers (visitLists m places i acc lists) := by
  induction lists generalizing i acc with
  | nil =>
    rw [visitLists]
    exact answers_pure _
  | cons list rest ih =>
    rw [List.flatten_cons] at h
    rw [visitLists]
    exact (answers_visitList (fun s hs => h s (List.mem_append_left _ hs)) _ _).bind fun _ =>
      (answers_addTime _ _).bind fun _ => ih (fun s hs => h s (List.mem_append_right _ hs)) _ _

theorem answers_inside {s : Statement} (h : ∀ c ∈ s.nested, ∀ i, Answers (visit m places i c)) (i : Nat) :
    Answers (inside m places i s) := by
  have harms : ∀ (list : List Statement) (lists : List (List Statement)),
      (∀ c ∈ list ++ lists.flatten, c ∈ s.nested) →
        Answers (do let a ← visitList m places i 0 list; visitLists m places a.1 a.2 lists) :=
    fun list lists hsub => (answers_visitList (fun c hc => h c (hsub c (List.mem_append_left _ hc))) _ _).bind
      fun _ => answers_visitLists (fun c hc => h c (hsub c (List.mem_append_right _ hc))) _ _
  have helse : ∀ (x : SelfTime Visited) (list : List Statement), Answers x → (∀ c ∈ list, c ∈ s.nested) →
      Answers (do
        let a ← x
        let b ← visitList m places a.1 0 list
        return (b.1, ← addTime a.2 b.2)) :=
    fun x list hx hsub => hx.bind fun _ => (answers_visitList (fun c hc => h c (hsub c hc)) _ _).bind
      fun _ => (answers_addTime _ _).bind fun _ => answers_pure _
  cases s with
  | block site label body handlers => exact harms _ _ fun c hc => by rwa [nested_block]
  | cond site thenBody elsifs elseBody =>
    cases elseBody with
    | none => exact harms _ _ fun c hc => by simpa [nested_cond] using hc
    | some elseBody =>
      refine helse _ _ (harms _ _ fun c hc => ?_) fun c hc => ?_
      all_goals
        rw [nested_cond, Option.getD_some, List.mem_append]
      · exact .inl hc
      · exact .inr hc
  | choice site whens elseBody =>
    rw [nested_choice] at h
    cases elseBody with
    | none => exact answers_visitLists (fun c hc => h c (by simpa using hc)) _ _
    | some elseBody =>
      refine helse _ _ (answers_visitLists (fun c hc => h c (List.mem_append_left _ hc)) _ _) fun c hc => ?_
      rw [nested_choice]
      exact List.mem_append_right _ hc
  | loop site kind body => exact answers_visitList (fun c hc => h c (by rwa [nested_loop])) _ _
  | simple site kind fingerprint => exact answers_pure _

theorem answers_visit (s : Statement) (i : Nat) : Answers (visit m places i s) := by
  induction s using nested_induction generalizing i with
  | step s ih =>
    rw [visit_eq]
    exact (answers_liftM _).bind fun _ => (answers_inside ih _).bind fun _ =>
      (answers_settle _ _ _).bind fun _ => answers_pure _

end SelfTime

/-- The walk over any tree with any numbering answers or is refused, unless a sum overflows. -/
theorem Tally.answers_fold (t : Tally) (m : Numbering) (p : Procedure) :
    EndsIn (fun _ => True) (· = .addOverflow) (t.fold m p) := by
  have hwalk : SelfTime.Answers ((·.2) <$> SelfTime.visit m p.places 0 p.body) := by
    rw [map_eq_pure_bind]
    exact (SelfTime.answers_visit p.body 0).bind fun a => SelfTime.answers_pure a.2
  exact hwalk t

/-- The walk over the tree of a numbered copy answers unless a sum overflows. -/
theorem Tally.endsIn_fold {p : Procedure} {m : Numbering} (hbuild : Numbering.build p = .ok m) (t : Tally) :
    EndsIn (fun out => ∃ time, out.1 = .ok time) (· = .addOverflow) (t.fold m p) :=
  (t.fold_settles hbuild).imp (fun _ h => h.imp fun _ h => h.1) fun _ h => h.1

end ProcProfile
