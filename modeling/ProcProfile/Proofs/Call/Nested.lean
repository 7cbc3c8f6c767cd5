import Mathlib.Data.List.Infix
import Mathlib.Tactic
import ProcProfile.Proofs.Call.Times

/-!
# Nested statements share their time

As long as of any two running statements one is nested in the other, no moment of a call is counted twice: the
self times in its records add up to no more than the time of the call, whatever ends were left out, repeated or
reported late.

A statement that an error has left keeps running until a statement around it ends.  If an exception handler runs
meanwhile, the two share their time without being nested, and that time is counted for both.

* `Call.Nested`: of two running statements one encloses the other;
* `Call.Nested.inclusive_later`: while they do, time passes for the root once;
* `Call.Timed.endsIn_takeAll`: what this comes to over a whole call;
* `Call.sum_selfTimes_le`: so self times add up to the time of the call at most;
* `Call.handler_time_counted_twice`: in a handler they may add up to more.
-/

namespace ProcProfile

open Statement

namespace Call

/-- Of two running statements one encloses the other. -/
def Nested (c : Call) : Prop :=
  ∀ i j, c.tally.isOpen i = true → c.tally.isOpen j = true →
    c.procedure.body.Encloses i j ∨ c.procedure.body.Encloses j i

instance (c : Call) : Decidable c.Nested :=
  decidable_of_iff (∀ i < c.tally.size, ∀ j < c.tally.size, c.tally.isOpen i = true → c.tally.isOpen j = true →
    c.procedure.body.Encloses i j ∨ c.procedure.body.Encloses j i)
    ⟨fun h i j hi hj => h i (Tally.lt_size_of_isOpen hi) j (Tally.lt_size_of_isOpen hj) hi hj,
      fun h i _ j _ => h i j⟩

section Nested

variable {c : Call} {p : Procedure} {now stop : Counter} {n rows : Nat}

theorem Nested.nestedIn (h : c.Nested) :
    NestedIn (fun k => c.tally.isOpen k = true) 0 c.procedure.body.preorder := by
  intro k s hs hk j hj
  rw [Nat.zero_add] at hk ⊢
  have hpos := s.count_pos
  rcases h k j hk hj with hkj | hjk
  · rw [Encloses, extent_eq hs] at hkj
    exact hkj.2
  · have := hjk.1
    omega

/-- Time that passes while the running statements are nested is time of the root once. -/
theorem Nested.inclusive_later (h : c.Nested) (hwithin : c.tally.Within now n rows) {now' : Counter}
    (hle : now ≤ now') :
    inclusive (c.tally.spent now') 0 c.procedure.body ≤
      inclusive (c.tally.spent now) 0 c.procedure.body + (now'.toNat - now.toNat) := by
  have hspent : c.tally.spent now' = fun k =>
      c.tally.spent now k + if c.tally.isOpen k = true then now'.toNat - now.toNat else 0 :=
    funext (hwithin.spent_later hle)
  rw [hspent]
  exact inclusive_add_le h.nestedIn

theorem Timed.root_later (h : c.Timed p now n rows) (hnested : c.Nested)
    (hroot : inclusive (c.tally.spent now) 0 p.body ≤ now.toNat - c.tally.startedAt.toNat) {now' : Counter}
    (hle : now ≤ now') :
    inclusive (c.tally.spent now') 0 p.body ≤ now'.toNat - c.tally.startedAt.toNat := by
  have hlater := hnested.inclusive_later h.within hle
  rw [h.procedure] at hlater
  have hstarted := UInt64.le_iff_toNat_le.1 h.within.started
  rw [UInt64.le_iff_toNat_le] at hle
  omega

/-- Over a call in which running statements are always nested, the root gets at most the time of the call. -/
theorem Timed.endsIn_takeAll {hooks : List (TimedHook (Statement × Place))} (h : c.Timed p now n rows)
    (hclock : TimedHook.InOrder now hooks stop)
    (hnested : ∀ front, front <+: hooks → ∀ c', c.takeAll front = .ok c' → c'.Nested)
    (hroot : inclusive (c.tally.spent now) 0 p.body ≤ now.toNat - c.tally.startedAt.toNat) :
    EndsIn (fun c' => c'.Timed p stop (n + hooks.length) (rows + TimedHook.totalRows hooks) ∧
        c'.tally.startedAt = c.tally.startedAt ∧
        inclusive (c'.tally.spent stop) 0 p.body ≤ stop.toNat - c.tally.startedAt.toNat)
      (Overflow (n + hooks.length) (rows + TimedHook.totalRows hooks)) (c.takeAll hooks) := by
  have hnow : c.Nested := hnested [] List.nil_prefix c rfl
  induction hooks generalizing c now n rows with
  | nil => exact .ok ⟨h.later hclock.le, rfl, h.root_later hnow hroot hclock.le⟩
  | cons hook hooks ih =>
    obtain ⟨hle, hclock⟩ := hclock.cons
    have hlength : n + (hook :: hooks).length = n + 1 + hooks.length := by rw [List.length_cons]; omega
    have hrows : rows + TimedHook.totalRows (hook :: hooks) = rows + hook.rows + TimedHook.totalRows hooks := by
      rw [TimedHook.totalRows, List.map_cons, List.sum_cons, Nat.add_assoc]
      rfl
    have hlater := h.root_later hnow hroot hle
    have htake := (h.later hle).endsIn_take.and_ok fun c' hc' => hc'
    rw [hlength, hrows]
    refine (htake.imp (fun _ hc => hc) fun f hf => hf.mono (Nat.le_add_right _ _) (Nat.le_add_right _ _)).bind
      fun c' hc' => ?_
    obtain ⟨⟨htimed, hstart, hspent⟩, hok⟩ := hc'
    have hspent : c'.tally.spent hook.now = c.tally.spent hook.now := funext hspent
    have hnested' : ∀ front, front <+: hooks → ∀ c'', c'.takeAll front = .ok c'' → c''.Nested := by
      intro front hfront c'' hc''
      refine hnested (hook :: front) (List.cons_prefix_cons.2 ⟨rfl, hfront⟩) c'' ?_
      rw [takeAll, List.foldlM_cons, hok]
      exact hc''
    have hrest := ih htimed hclock hnested' (by rwa [hspent, hstart]) (hnested' [] List.nil_prefix c' rfl)
    rwa [hstart] at hrest

/-- The time that is credited to a root that never began is no more than the time of the call. -/
theorem inclusive_measured_le (c : Call) (body : Statement)
    (h : inclusive (c.tally.spent stop) 0 body ≤ stop.toNat - c.tally.startedAt.toNat) :
    inclusive (c.measured stop) 0 body ≤ stop.toNat - c.tally.startedAt.toNat := by
  have hinside : inclusives (c.measured stop) (0 + 1) body.nested =
      inclusives (c.tally.spent stop) (0 + 1) body.nested :=
    inclusives_congr fun k hk _ => by rw [measured, if_neg (by omega)]
  rw [inclusive_eq_max] at h ⊢
  rw [hinside]
  have hself : c.measured stop 0 ≤ stop.toNat - c.tally.startedAt.toNat := by
    unfold measured
    split_ifs
    · exact le_rfl
    · omega
  omega

/-- If of any two running statements one always encloses the other, the self times in the records of a call add
up to no more than its time.  The reports may be about any statements and come in any order, and the records are
given unless a count of executions or of rows overflows. -/
theorem sum_selfTimes_le {p : Procedure} {m : Numbering} (hbuild : Numbering.build p = .ok m)
    {start stop : Counter} {hooks : List (TimedHook (Statement × Place))}
    (hclock : TimedHook.InOrder start hooks stop)
    (hnested : ∀ front, front <+: hooks → ∀ c, takeAll ⟨p, m, Tally.new m start⟩ front = .ok c → c.Nested) :
    EndsIn (fun answer => ∃ records, answer = .ok records ∧
        (records.map fun x => x.totalTime.toNat).sum ≤ stop.toNat - start.toNat)
      (Overflow hooks.length (TimedHook.totalRows hooks))
      (recordsAfter ⟨p, m, Tally.new m start⟩ hooks stop) := by
  have hzero : inclusive ((Tally.new m start).spent start) 0 p.body ≤
      start.toNat - (Tally.new m start).startedAt.toNat := by
    have hspent : (Tally.new m start).spent start = fun _ => 0 := funext (Tally.new_timely m start).2
    rw [hspent, inclusive_eq fun k s _ => by simp]
    exact Nat.zero_le _
  have htaken := (timed_new hbuild start).endsIn_takeAll hclock hnested hzero
  rw [Nat.zero_add, Nat.zero_add] at htaken
  refine htaken.bind fun c hc => ?_
  obtain ⟨htimed, hstart, hroot⟩ := hc
  have hroot := inclusive_measured_le c p.body (by rwa [hstart])
  rw [hstart] at hroot
  have hlt := stop.toNat_lt
  refine (htimed.endsIn_records (by omega)).imp (fun answer ha => ?_) fun f hf => hf
  obtain ⟨records, rfl, hown⟩ := ha
  exact ⟨records, rfl, hown.sum ▸ hroot⟩

end Nested

/-! ### A handler that runs beside the statement that failed -/

/-- A block around one statement, with an exception handler of one statement. -/
def handlerCopy : Procedure :=
  .compile 0 ⟨1, 1, 1, 0⟩ "handler"
    (.block ⟨none, 1⟩ none [.simple ⟨none, 2⟩ .assign none] [[.simple ⟨none, 4⟩ .assign none]])

def handlerNumbering : Numbering where
  identity := ⟨1, 1, 1, 0⟩
  index := .lines (.ofList handlerCopy.places handlerCopy.body.preorder)
  nativeIds := [none, none, none]
  lines := [1, 2, 4]
  fingerprints := [none, none, none]

/-- A call of the block. -/
def handlerCall : Call := ⟨handlerCopy, handlerNumbering, Tally.new handlerNumbering 0⟩

/-- The statement fails after 10 microseconds, and then the handler takes 10 microseconds. -/
def handlerHooks : List (TimedHook (Statement × Place)) :=
  [.begin (handlerCopy.locate 0) 0, .begin (handlerCopy.locate 1) 0, .finish (handlerCopy.locate 1) 10 0 true,
    .begin (handlerCopy.locate 2) 10, .finish (handlerCopy.locate 2) 20 0 false,
    .finish (handlerCopy.locate 0) 20 0 false]

theorem sum_selfTimes_le_handlerHooks :
    Numbering.build handlerCopy = .ok handlerNumbering ∧
    EndsIn (fun answer => ∃ records, answer = .ok records ∧
        (records.map fun x => x.totalTime.toNat).sum ≤ (20 : Counter).toNat - (0 : Counter).toNat)
      (Overflow handlerHooks.length (TimedHook.totalRows handlerHooks))
      (recordsAfter handlerCall handlerHooks 20) := by
  have hbuild : Numbering.build handlerCopy = .ok handlerNumbering := rfl
  have hclock : TimedHook.InOrder 0 handlerHooks 20 := by decide
  have hnested : ∀ front ∈ handlerHooks.inits, EndsIn Nested (fun _ => True) (handlerCall.takeAll front) := by
    decide +kernel
  have hfronts : ∀ front, front <+: handlerHooks → ∀ c, handlerCall.takeAll front = .ok c → c.Nested := by
    intro front hfront c hc
    have hfront := hnested front ((List.mem_inits ..).2 hfront)
    rwa [hc, endsIn_ok_iff] at hfront
  refine ⟨hbuild, ?_⟩
  unfold handlerCall at hfronts ⊢
  exact sum_selfTimes_le hbuild hclock hfronts

/-- The same reports without the end of the statement that failed. -/
def skippedHooks : List (TimedHook (Statement × Place)) :=
  [.begin (handlerCopy.locate 0) 0, .begin (handlerCopy.locate 1) 0, .begin (handlerCopy.locate 2) 10,
    .finish (handlerCopy.locate 2) 20 0 false, .finish (handlerCopy.locate 0) 20 0 false]

/-- A call of 20 microseconds whose self times add up to more: the 10 microseconds of the handler are counted for
the handler and for the statement that failed. -/
theorem handler_time_counted_twice :
    Numbering.build handlerCopy = .ok handlerNumbering ∧ TimedHook.InOrder 0 skippedHooks 20 ∧
    ∃ records, recordsAfter handlerCall skippedHooks 20 = .ok (.ok records) ∧
      (records.map fun x => x.totalTime.toNat) = [0, 20, 10] ∧
      20 < (records.map fun x => x.totalTime.toNat).sum := by
  refine ⟨rfl, by decide, ?_⟩
  obtain ⟨answer, hanswer, htimes⟩ := map_eq_ok_iff.1 (by decide +kernel :
    (fun answer => answer.map fun records => records.map fun x => x.totalTime.toNat) <$>
      recordsAfter handlerCall skippedHooks 20 = .ok (.ok [0, 20, 10]))
  obtain ⟨records, hrecords, htimes⟩ := map_eq_ok_iff.1 htimes
  rw [hrecords] at hanswer
  exact ⟨records, hanswer, htimes, by rw [htimes]; decide⟩

end Call

end ProcProfile
