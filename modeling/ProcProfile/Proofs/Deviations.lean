import Mathlib.Algebra.BigOperators.Group.List.Basic
import Mathlib.Algebra.Order.BigOperators.Group.List
import Mathlib.Tactic
import ProcProfile.Proofs.Region.Ledger

/-!
# The sum of squared deviations

Call statistics keep the sum of the squared deviations from the mean time of a call.  It is brought up to date with
each call, from the number of calls, the time of the last one and the time of all, so that neither the times nor
the mean are needed.  Here the recurrence is read once on doubles, as it runs, and once on exact rationals, where it
is the sum of squared deviations from the mean of all calls, whatever their order.

* `keptAlong`: a sum that is brought up to date with each call, in any arithmetic;
* `CallStats.recordAll`, `recordAll_zero_iff`, `counts_recordAll`, `sumSqBits_recordAll`: the calls that statistics
  record, and what they keep on doubles;
* `exactSumSq`, `exactSumSq_step`, `length_mul_exactSumSq`: the same on rationals, one call more, and all calls;
* `squaredDeviations`, `variance`, `exactSumSq_eq`: the deviations from the mean;
* `sumSq_is_variance`: what is kept of any calls.
-/

namespace ProcProfile

/-! ### What is kept along calls -/

/-- A sum that is kept along calls, after `n` calls that took the time `total` together: `step` brings it up to date
with the number of calls, the time of the last one and the time of all.  The first call begins it. -/
def keptAlong {σ : Type} (start : σ) (step : σ → (n x total : Nat) → σ) :
    (n total : Nat) → (kept : σ) → (times : List Nat) → σ
  | _, _, kept, [] => kept
  | n, total, kept, x :: times =>
    keptAlong start step (n + 1) (total + x) (if 0 < n then step kept (n + 1) x (total + x) else start) times

/-- One call more, on the bits of doubles. -/
def doubleStep (bits : UInt64) (n x total : Nat) : UInt64 :=
  deviationBits bits (UInt64.ofNat n) (UInt64.ofNat x) (UInt64.ofNat total)

/-- One call more, on rationals. -/
def exactStep (sum : ℚ) (n x total : Nat) : ℚ := deviationStep sum n x total

/-- The sum of squared deviations that is kept of calls with these times, on rationals. -/
def exactSumSq (times : List Nat) : ℚ := keptAlong 0 exactStep 0 0 0 times

/-- The last call comes on top of all others. -/
theorem keptAlong_concat {σ : Type} (start : σ) (step : σ → Nat → Nat → Nat → σ) (n total : Nat) (kept : σ)
    (times : List Nat) (x : Nat) :
    keptAlong start step n total kept (times ++ [x]) =
      if 0 < n + times.length then
        step (keptAlong start step n total kept times) (n + times.length + 1) x (total + times.sum + x)
      else start := by
  induction times generalizing n total kept with
  | nil => rfl
  | cons y times ih =>
    rw [List.cons_append, keptAlong, ih, keptAlong, List.length_cons, List.sum_cons, Nat.add_assoc n 1,
      Nat.add_comm 1, Nat.add_assoc total]

/-! ### Recorded calls -/

namespace CountedCall

/-- The times of calls. -/
def times (calls : List CountedCall) : List Nat := calls.map fun c => c.elapsed.toNat

end CountedCall

namespace CallStats

/-- Counts calls one after another. -/
def recordAll (calls : List CountedCall) (s : CallStats) : Except Fault CallStats :=
  calls.foldlM (fun s c => s.record c.elapsed c.failed) s

variable {s s' : CallStats} {calls passed : List CountedCall}

theorem recordAll_cons (c : CountedCall) (calls : List CountedCall) (s : CallStats) :
    recordAll (c :: calls) s = s.record c.elapsed c.failed >>= recordAll calls := by
  rw [recordAll, List.foldlM_cons]
  rfl

/-- What a counted call does to the counts and to the sum of squared deviations. -/
theorem record_eq_ok {elapsed : Counter} {isError : Bool} (h : s.record elapsed isError = .ok s') :
    s'.execCount.toNat = s.execCount.toNat + 1 ∧ s'.totalTime.toNat = s.totalTime.toNat + elapsed.toNat ∧
      s'.sumSqBits =
        if 0 < s.execCount.toNat then deviationBits s.sumSqBits s'.execCount elapsed s'.totalTime else 0 := by
  unfold record at h
  obtain ⟨exec, hexec, h⟩ := bind_eq_ok_iff.1 h
  obtain ⟨total, htotal, h⟩ := bind_eq_ok_iff.1 h
  rw [Counter.add_eq_ok] at hexec htotal
  rw [UInt64.toNat_one] at hexec
  have hlater : 1 < exec ↔ 0 < s.execCount.toNat := by
    rw [UInt64.lt_iff_toNat_lt, UInt64.toNat_one]
    omega
  -- whether the call failed makes no difference for the sum
  have hleft : ∀ err : Counter, ((if 1 < exec then
        pure ⟨exec, err, total, deviationBits s.sumSqBits exec elapsed total, min s.minTime elapsed,
          max s.maxTime elapsed⟩
      else pure ⟨exec, err, total, 0, elapsed, elapsed⟩ : Except Fault CallStats) = .ok s') →
      s'.execCount = exec ∧ s'.totalTime = total ∧
        s'.sumSqBits = if 1 < exec then deviationBits s.sumSqBits exec elapsed total else 0 := by
    intro err h
    split_ifs at h ⊢
    all_goals cases h
    · exact ⟨rfl, rfl, rfl⟩
    · exact ⟨rfl, rfl, rfl⟩
  have hkept : s'.execCount = exec ∧ s'.totalTime = total ∧
      s'.sumSqBits = if 1 < exec then deviationBits s.sumSqBits exec elapsed total else 0 := by
    cases isError with
    | true =>
      obtain ⟨err, -, h⟩ := bind_eq_ok_iff.1 h
      exact hleft err h
    | false => exact hleft s.errorCount h
  obtain ⟨rfl, rfl, hbits⟩ := hkept
  simp only [hlater] at hbits
  exact ⟨hexec, htotal, hbits⟩

/-- Calls are counted as a whole, unless their number or their time overflows. -/
theorem Counts.endsIn_recordAll (h : s.Counts passed) :
    EndsIn (fun s' => s'.Counts (calls.reverse ++ passed))
      (fun f => f = .addOverflow ∧ (2 ^ 64 ≤ passed.length + calls.length ∨
        2 ^ 64 ≤ CountedCall.time passed + CountedCall.time calls)) (recordAll calls s) := by
  induction calls generalizing s passed with
  | nil => exact .ok h
  | cons c calls ih =>
    have htime : CountedCall.time (c :: calls) = c.elapsed.toNat + CountedCall.time calls := rfl
    have htime' : CountedCall.time (⟨c.elapsed, c.failed⟩ :: passed) =
        c.elapsed.toNat + CountedCall.time passed := rfl
    rw [recordAll_cons]
    refine EndsIn.bind ((h.endsIn_record c.elapsed c.failed).imp (fun _ hs => hs) ?_) fun s₁ hs₁ => ?_
    · rintro f ⟨rfl, hlength | htotal⟩
      · exact ⟨rfl, .inl (by simp only [List.length_cons]; omega)⟩
      · exact ⟨rfl, .inr (by omega)⟩
    · refine (ih hs₁).imp (fun s₂ hs₂ => ?_) ?_
      · rwa [List.reverse_cons, List.append_assoc]
      · rintro f ⟨rfl, hlength | htotal⟩
        · exact ⟨rfl, .inl (by simp only [List.length_cons] at hlength ⊢; omega)⟩
        · exact ⟨rfl, .inr (by omega)⟩

/-- What fresh statistics count once calls are recorded. -/
theorem counts_recordAll (h : recordAll calls .zero = .ok s) : s.Counts calls.reverse := by
  have hends := endsIn_ok_iff.1 (h ▸ counts_zero.endsIn_recordAll)
  rwa [List.append_nil] at hends

theorem totalTime_recordAll (h : recordAll calls .zero = .ok s) : s.totalTime.toNat = CountedCall.time calls := by
  rw [(counts_recordAll h).total, CountedCall.time, CountedCall.time, List.map_reverse, List.sum_reverse]

/-- The calls that fresh statistics have room for. -/
theorem recordAll_zero_iff :
    (∃ s, recordAll calls .zero = .ok s) ↔ calls.length < 2 ^ 64 ∧ CountedCall.time calls < 2 ^ 64 := by
  constructor
  · rintro ⟨s, hs⟩
    rw [← totalTime_recordAll hs, ← List.length_reverse, ← (counts_recordAll hs).exec]
    exact ⟨s.execCount.toNat_lt, s.totalTime.toNat_lt⟩
  · rintro ⟨hlength, htime⟩
    cases hs : recordAll calls .zero with
    | ok s => exact ⟨s, rfl⟩
    | error f =>
      have hends := endsIn_error_iff.1 (hs ▸ counts_zero.endsIn_recordAll)
      have hnone : CountedCall.time [] = 0 := rfl
      simp only [List.length_nil, hnone, Nat.zero_add] at hends
      omega

/-- The bits that recorded calls leave are those that are kept along the calls. -/
theorem sumSqBits_recordAll (h : recordAll calls s = .ok s') :
    s'.sumSqBits = keptAlong 0 doubleStep s.execCount.toNat s.totalTime.toNat s.sumSqBits
      (CountedCall.times calls) := by
  induction calls generalizing s with
  | nil =>
    cases h
    rfl
  | cons c calls ih =>
    rw [recordAll_cons] at h
    obtain ⟨s₁, hrecord, h⟩ := bind_eq_ok_iff.1 h
    obtain ⟨hexec, htotal, hbits⟩ := record_eq_ok hrecord
    rw [ih h, CountedCall.times, CountedCall.times, List.map_cons, keptAlong, ← hexec, ← htotal, hbits, doubleStep]
    simp

end CallStats

/-! ### The recurrence on rationals -/

/-- The sum of the squares of times. -/
def squares (times : List Nat) : Nat := (times.map fun x => x ^ 2).sum

/-- One call more, if there was one before: the squared deviation that is added makes up for the mean that moves. -/
theorem exactSumSq_step {n total squares x sum : ℚ} (hn : 0 < n) (h : n * sum = n * squares - total ^ 2) :
    (n + 1) * deviationStep sum (n + 1) x (total + x) = (n + 1) * (squares + x ^ 2) - (total + x) ^ 2 := by
  have hne : n ≠ 0 := hn.ne'
  have hne' : n + 1 ≠ 0 := by positivity
  have hsum : sum = squares - total ^ 2 / n := by
    field_simp
    linarith
  have hone : n + 1 - 1 = n := by ring
  unfold deviationStep
  rw [hsum, hone]
  field_simp
  ring

/-- The sum that is kept, by the sum of the squares and the square of the sum. -/
theorem length_mul_exactSumSq (times : List Nat) :
    (times.length : ℚ) * exactSumSq times = times.length * squares times - (times.sum : ℚ) ^ 2 := by
  induction times using List.reverseRecOn with
  | nil => simp [squares]
  | append_singleton times x ih =>
    have hkept : exactSumSq (times ++ [x]) =
        if 0 < times.length then exactStep (exactSumSq times) (times.length + 1) x (times.sum + x) else 0 := by
      simpa [exactSumSq] using keptAlong_concat (0 : ℚ) exactStep 0 0 0 times x
    rw [hkept]
    by_cases hlength : 0 < times.length
    · have hstep := exactSumSq_step (x := x) (by exact_mod_cast hlength) ih
      simpa [hlength, exactStep, squares] using hstep
    · have hnil : times = [] := by simpa using hlength
      simp [hnil, squares]

/-! ### Deviations from the mean -/

/-- The mean of times. -/
def mean (times : List Nat) : ℚ := times.sum / times.length

/-- The sum of the squared deviations of times from a value. -/
def squaredDeviations (times : List Nat) (m : ℚ) : ℚ := (times.map fun x : Nat => ((x : ℚ) - m) ^ 2).sum

theorem squaredDeviations_eq (times : List Nat) (m : ℚ) :
    squaredDeviations times m = squares times - 2 * m * times.sum + times.length * m ^ 2 := by
  unfold squaredDeviations squares
  induction times with
  | nil => simp
  | cons x times ih =>
    simp only [List.map_cons, List.sum_cons, List.length_cons] at ih ⊢
    rw [ih]
    push_cast
    ring

/-- What is kept is the sum of the squared deviations from the mean. -/
theorem exactSumSq_eq {times : List Nat} (hne : times ≠ []) :
    exactSumSq times = squaredDeviations times (mean times) := by
  have hpos : (0 : ℚ) < times.length := by exact_mod_cast List.length_pos_iff.2 hne
  have hkept := length_mul_exactSumSq times
  rw [squaredDeviations_eq, mean]
  field_simp
  linarith

theorem squaredDeviations_nonneg (times : List Nat) (m : ℚ) : 0 ≤ squaredDeviations times m := by
  unfold squaredDeviations
  apply List.sum_nonneg
  simp only [List.mem_map]
  rintro _ ⟨x, -, rfl⟩
  positivity

/-- Deviations add up to nothing exactly if there is none. -/
theorem squaredDeviations_eq_zero_iff {times : List Nat} {m : ℚ} :
    squaredDeviations times m = 0 ↔ ∀ x ∈ times, (x : ℚ) = m := by
  unfold squaredDeviations
  induction times with
  | nil => simp
  | cons x times ih =>
    have hrest : 0 ≤ (times.map fun x : Nat => ((x : ℚ) - m) ^ 2).sum := squaredDeviations_nonneg times m
    rw [List.map_cons, List.sum_cons, List.forall_mem_cons, ← ih, add_eq_zero_iff_of_nonneg (by positivity) hrest]
    simp [sub_eq_zero]

theorem eq_mean_iff {times : List Nat} (hne : times ≠ []) :
    (∀ x ∈ times, (x : ℚ) = mean times) ↔ ∀ x ∈ times, ∀ y ∈ times, x = y := by
  constructor
  · intro h x hx y hy
    exact_mod_cast (h x hx).trans (h y hy).symm
  · intro h x hx
    have hpos : (0 : ℚ) < times.length := by exact_mod_cast List.length_pos_iff.2 hne
    have hall : times = List.replicate times.length x := List.eq_replicate_iff.2 ⟨rfl, fun y hy => h y hy x hx⟩
    have hsum : times.sum = times.length * x := by
      conv_lhs => rw [hall]
      simp
    rw [mean, hsum]
    push_cast
    field_simp

/-- The variance of times, as of a whole population. -/
def variance (times : List Nat) : ℚ := squaredDeviations times (mean times) / times.length

/-- The order of the calls does not show in what is kept. -/
theorem exactSumSq_perm {times order : List Nat} (h : order.Perm times) : exactSumSq order = exactSumSq times := by
  by_cases hne : times = []
  · rw [hne, List.perm_nil] at h
    rw [h, hne]
  · have hne' : order ≠ [] := fun hnil => hne (by rwa [hnil, List.nil_perm] at h)
    have hmean : mean order = mean times := by rw [mean, mean, h.sum_eq, h.length_eq]
    rw [exactSumSq_eq hne', exactSumSq_eq hne, hmean, squaredDeviations, squaredDeviations]
    exact (h.map _).sum_eq

/-- **The recurrence keeps the variance.**  Calls are recorded into fresh statistics unless their number or their time
is too large for a counter.  The bits that are left are those of the recurrence on doubles; the same recurrence on
rationals gives the sum of the squared deviations from the mean.  So it is the variance if divided by the number of
calls, it is not negative, it is zero only if all calls took the same time, and it does not show their order. -/
theorem sumSq_is_variance (calls : List CountedCall) (hne : calls ≠ []) :
    ((∃ s, CallStats.recordAll calls .zero = .ok s) ↔ calls.length < 2 ^ 64 ∧ CountedCall.time calls < 2 ^ 64) ∧
    (∀ s, CallStats.recordAll calls .zero = .ok s →
      s.execCount.toNat = calls.length ∧ s.totalTime.toNat = CountedCall.time calls ∧
      s.sumSqBits = keptAlong 0 doubleStep 0 0 0 (CountedCall.times calls)) ∧
    ∀ times sum, times = CountedCall.times calls → sum = keptAlong 0 exactStep 0 0 0 times →
      (times.length * sum = times.length * squares times - (times.sum : ℚ) ^ 2 ∧
        sum / times.length = variance times ∧ 0 ≤ sum ∧ (sum = 0 ↔ ∀ x ∈ times, ∀ y ∈ times, x = y) ∧
        ∀ order : List CountedCall, order.Perm calls →
          keptAlong 0 exactStep 0 0 0 (CountedCall.times order) = sum) := by
  refine ⟨CallStats.recordAll_zero_iff, ?_, ?_⟩
  · intro s hs
    exact ⟨(CallStats.counts_recordAll hs).exec.trans List.length_reverse, CallStats.totalTime_recordAll hs,
      CallStats.sumSqBits_recordAll hs⟩
  · rintro times sum rfl rfl
    have hne' : CountedCall.times calls ≠ [] := by simpa [CountedCall.times] using hne
    have hkept := exactSumSq_eq hne'
    rw [exactSumSq] at hkept
    refine ⟨length_mul_exactSumSq _, ?_, ?_, ?_, ?_⟩
    · rw [hkept, variance]
    · rw [hkept]
      exact squaredDeviations_nonneg _ _
    · rw [hkept, squaredDeviations_eq_zero_iff, eq_mean_iff hne']
    · intro order horder
      exact exactSumSq_perm (horder.map _)

/-- Calls of 10, 20 and 30 microseconds, the second of which failed. -/
def unevenCalls : List CountedCall := [⟨10, false⟩, ⟨20, true⟩, ⟨30, false⟩]

/-- The deviations of the three calls are -10, 0 and 10. -/
theorem sumSq_is_variance_unevenCalls : keptAlong 0 exactStep 0 0 0 (CountedCall.times unevenCalls) = 200 := by
  obtain ⟨-, -, h⟩ := sumSq_is_variance unevenCalls (by decide)
  obtain ⟨hsum, -⟩ := h _ _ rfl rfl
  have hlength : (CountedCall.times unevenCalls).length = 3 := by decide
  have htotal : (CountedCall.times unevenCalls).sum = 60 := by decide
  have hsquares : squares (CountedCall.times unevenCalls) = 1400 := by decide
  rw [hlength, htotal, hsquares] at hsum
  push_cast at hsum
  linarith

end ProcProfile
