import Mathlib.Tactic
import ProcProfile.Fault

/-!
# Computations that may stop

What it takes for a sequence of steps to give an answer, and for a checked sum not to fault.

* `bind_eq_ok_iff`, `map_eq_ok_iff`, `Stop.ofFault_eq_ok_iff`: an answer comes from answers;
* `bind_eq_error_iff`, `forM_eq_error_iff`: a failure comes from the first step that fails;
* `EndsIn`: a property of every answer, and of every reason not to give one;
* `Counter.toNat_add_of_lt`, `Counter.toNat_max`: sums that fit, and maxima, as natural numbers.
-/

namespace ProcProfile

variable {ε α β : Type}

theorem bind_eq_ok_iff {x : Except ε α} {f : α → Except ε β} {b : β} :
    x >>= f = .ok b ↔ ∃ a, x = .ok a ∧ f a = .ok b := by
  cases x <;> simp [bind, Except.bind]

theorem bind_eq_error_iff {x : Except ε α} {f : α → Except ε β} {e : ε} :
    x >>= f = .error e ↔ x = .error e ∨ ∃ a, x = .ok a ∧ f a = .error e := by
  cases x <;> simp [bind, Except.bind]

theorem map_eq_ok_iff {x : Except ε α} {f : α → β} {b : β} :
    f <$> x = .ok b ↔ ∃ a, x = .ok a ∧ f a = b := by
  cases x <;> simp [Functor.map, Except.map]

/-- A series of checks is passed if each of them is. -/
theorem forM_eq_ok_iff {check : α → Except ε Unit} {list : List α} :
    forM list check = .ok () ↔ ∀ a ∈ list, check a = .ok () := by
  induction list with
  | nil => simp [pure, Except.pure]
  | cons a list ih =>
    rw [List.forM_cons, bind_eq_ok_iff, List.forall_mem_cons, ← ih]
    exact ⟨fun ⟨_, ha, hlist⟩ => ⟨ha, hlist⟩, fun ⟨ha, hlist⟩ => ⟨(), ha, hlist⟩⟩

/-- A series of checks fails at the first one that fails. -/
theorem forM_eq_error_iff {check : α → Except ε Unit} {list : List α} {e : ε} :
    forM list check = .error e ↔
      ∃ front a back, list = front ++ a :: back ∧ (∀ b ∈ front, check b = .ok ()) ∧ check a = .error e := by
  induction list with
  | nil => simp [pure, Except.pure]
  | cons a list ih =>
    rw [List.forM_cons, bind_eq_error_iff, ih]
    constructor
    · rintro (ha | ⟨_, ha, front, b, back, rfl, hfront, hb⟩)
      · exact ⟨[], a, list, rfl, by simp, ha⟩
      · refine ⟨a :: front, b, back, rfl, ?_, hb⟩
        rintro c (_ | ⟨_, hc⟩)
        · exact ha
        · exact hfront c hc
    · rintro ⟨front, b, back, heq, hfront, hb⟩
      cases front with
      | nil =>
        cases heq
        exact .inl hb
      | cons c front =>
        cases heq
        exact .inr ⟨(), hfront a (by simp), front, b, back, rfl, fun d hd => hfront d (by simp [hd]), hb⟩

/-! ### Outcomes -/

/-- A computation gives an answer with a property, or fails for a reason with a property. -/
inductive EndsIn (P : α → Prop) (bad : ε → Prop) : Except ε α → Prop
  | ok {a : α} (h : P a) : EndsIn P bad (.ok a)
  | error {e : ε} (h : bad e) : EndsIn P bad (.error e)

section EndsIn

variable {P : α → Prop} {Q : β → Prop} {bad : ε → Prop} {x : Except ε α} {f : α → Except ε β}

theorem endsIn_ok_iff {a : α} : EndsIn P bad (.ok a) ↔ P a :=
  ⟨fun h => by cases h; assumption, .ok⟩

theorem endsIn_error_iff {e : ε} : EndsIn P bad (.error e : Except ε α) ↔ bad e :=
  ⟨fun h => by cases h; assumption, .error⟩

instance [DecidablePred P] [DecidablePred bad] : DecidablePred (EndsIn P bad)
  | .ok _ => decidable_of_iff _ endsIn_ok_iff.symm
  | .error _ => decidable_of_iff _ endsIn_error_iff.symm

theorem EndsIn.imp {P' : α → Prop} {bad' : ε → Prop} (h : EndsIn P bad x) (hP : ∀ a, P a → P' a)
    (hbad : ∀ e, bad e → bad' e) : EndsIn P' bad' x := by
  cases h with
  | ok h => exact .ok (hP _ h)
  | error h => exact .error (hbad _ h)

/-- What is known of every answer may be added. -/
theorem EndsIn.and_ok {P' : α → Prop} (h : EndsIn P bad x) (hok : ∀ a, x = .ok a → P' a) :
    EndsIn (fun a => P a ∧ P' a) bad x := by
  cases h with
  | ok h => exact .ok ⟨h, hok _ rfl⟩
  | error h => exact .error h

theorem EndsIn.bind (h : EndsIn P bad x) (hf : ∀ a, P a → EndsIn Q bad (f a)) :
    EndsIn Q bad (x >>= f) := by
  cases h with
  | ok h => exact hf _ h
  | error h => exact .error h

theorem EndsIn.map {g : α → β} (h : EndsIn P bad x) (hg : ∀ a, P a → Q (g a)) : EndsIn Q bad (g <$> x) := by
  cases h with
  | ok h => exact .ok (hg _ h)
  | error h => exact .error h

end EndsIn

namespace Stop

@[simp] theorem ofFault_ok (a : α) : (ofFault (.ok a) : Except (Stop ε) α) = .ok a := rfl

@[simp] theorem ofFault_error (f : Fault) :
    (ofFault (.error f) : Except (Stop ε) α) = .error (.fault f) := rfl

theorem ofFault_eq_ok_iff {x : Except Fault α} {a : α} :
    (ofFault x : Except (Stop ε) α) = .ok a ↔ x = .ok a := by
  cases x <;> simp

theorem endsIn_ofFault {P : α → Prop} {bad : Stop ε → Prop} {x : Except Fault α}
    (h : EndsIn P (fun f => bad (.fault f)) x) : EndsIn P bad (ofFault x) := by
  cases h with
  | ok h => exact .ok h
  | error h => exact .error h

@[simp] theorem ofError_ok (a : α) : (ofError (.ok a) : Except (Stop ε) α) = .ok a := rfl

theorem ofError_eq_ok_iff {x : Except ε α} {a : α} :
    (ofError x : Except (Stop ε) α) = .ok a ↔ x = .ok a := by
  cases x <;> simp [ofError]

end Stop

namespace Counter

theorem toNat_add_of_lt {a b : Counter} (h : a.toNat + b.toNat < 2 ^ 64) :
    (a + b).toNat = a.toNat + b.toNat := by
  rw [UInt64.toNat_add, Nat.mod_eq_of_lt h]

/-- A checked sum fits, or it is as large as no counter is. -/
theorem endsIn_add {a b : Counter} {bad : Fault → Prop}
    (h : 2 ^ 64 ≤ a.toNat + b.toNat → bad .addOverflow) :
    EndsIn (fun c : Counter => c.toNat = a.toNat + b.toNat) bad (add a b) := by
  unfold add
  split_ifs with hlt
  · exact .ok (toNat_add_of_lt hlt)
  · exact .error (h (not_lt.1 hlt))

theorem toNat_max (a b : Counter) : (max a b).toNat = max a.toNat b.toNat := by
  show (if a ≤ b then b else a).toNat = _
  split_ifs with hle
  all_goals rw [UInt64.le_iff_toNat_le] at hle
  all_goals omega

end Counter

end ProcProfile
