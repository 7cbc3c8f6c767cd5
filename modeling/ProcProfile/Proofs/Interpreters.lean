import Mathlib.Logic.Function.Basic
import Mathlib.Tactic
import ProcProfile.Proofs.Call
import ProcProfile.Proofs.Region.Sane

/-!
# Interpreters at work on one store

Any number of interpreters report to sessions of their own over one store.  Nothing is asked of them: clocks may
go back, reports may be about statements of other trees or of none, calls may be aborted, abandoned or begun
again, and in between profiles are read, invalidated and reset.  A request that is refused is passed over; only a
fault stops everything.

* `Inquiry`: what a session may be asked to read;
* `Interpreters`, `Interpreters.Action`, `Interpreters.act`, `Interpreters.run`: interpreters over one store;
* `Kept`: a tidy region with counters that fit together, which every operation of a session leaves so;
* `Interpreters.Sane`, `Sane.act`, `Sane.run`: what every action keeps;
* `stored_counters_sane`: the counters of every stored record fit together.
-/

namespace ProcProfile

/-! ### What interpreters do -/

/-- What a session may be asked to read. -/
inductive Inquiry where
  | result (p : Procedure)
  | lineProfile (p : Procedure) (source : String)
  | coverage (p : Procedure)
  | report (p : Procedure) (source : Option String) (generatedAt : String)
  | summaries (db : UInt32)

/-- The session and the region after an inquiry, whatever its answer is. -/
def Inquiry.run (s : Session) (o : Owner) (r : Region) : Inquiry → Except Fault (Session × Region)
  | .result p => Prod.map id Access.region <$> s.result p o r
  | .lineProfile p source => Prod.map id Access.region <$> s.lineProfile p source o r
  | .coverage p => Prod.map id Access.region <$> s.coverage p o r
  | .report p source generatedAt => Prod.map id Access.region <$> s.report p source generatedAt o r
  | .summaries db => (fun access => (s, access.region)) <$> r.summariesOf o db

/-- Interpreters over one store.  Sessions and calls are named by numbers, and a call that runs knows the
session that began it. -/
structure Interpreters where
  region : Region
  session : Nat → Session
  clock : Nat → Clock
  running : Nat → Option (Nat × Call)

namespace Interpreters

/-- What an interpreter may do. -/
inductive Action where
  | setClock (session : Nat) (now : Counter)
  | advanceClock (session : Nat) (delta : Counter)
  | setEnabled (session : Nat) (enabled : Bool)
  /-- A copy is called; a call that has the name already is given up. -/
  | beginCall (session call : Nat) (p : Procedure)
  | beginStatement (call : Nat) (s : Statement) (place : Place)
  | endStatement (call : Nat) (s : Statement) (place : Place) (rows : Counter) (isError : Bool)
  /-- A call ends, and its session uses the store as an owner. -/
  | endCall (call : Nat) (aborted : Bool) (owner : Owner)
  | abandonCall (call : Nat)
  | invalidate (session : Nat) (unit : Option UnitKey)
  | reset (scope : ResetScope)
  | inquire (session : Nat) (owner : Owner) (what : Inquiry)

/-- New sessions over a new store, with any clocks. -/
def start (capacity unitCapacity : UInt64) (clock : Nat → Clock) : Interpreters where
  region := Region.create capacity unitCapacity
  session _ := Session.new
  clock := clock
  running _ := none

/-- Reports to a call, if there is one of the name.  A report that the call refuses is passed over. -/
def report (w : Interpreters) (c : Nat) (f : Call → Counter → Except (Stop WalkError) Call) :
    Except Fault Interpreters :=
  match w.running c with
  | none => .ok w
  | some (s, call) =>
    match f call (w.clock s).now with
    | .ok call => .ok { w with running := Function.update w.running c (some (s, call)) }
    | .error (.error _) => .ok w
    | .error (.fault fault) => .error fault

/-- One action.  A call that ended is gone, even if its end was answered with an error. -/
def act (w : Interpreters) : Action → Except Fault Interpreters
  | .setClock s now => .ok { w with clock := Function.update w.clock s ⟨now⟩ }
  | .advanceClock s delta => .ok { w with clock := Function.update w.clock s ((w.clock s).advance delta) }
  | .setEnabled s enabled =>
    .ok { w with session := Function.update w.session s { w.session s with enabled := enabled } }
  | .beginCall s c p =>
    match (w.session s).beginCall p (w.clock s).now with
    | (session, .ok call) => .ok { w with
        session := Function.update w.session s session
        running := Function.update w.running c (call.map fun call => (s, call)) }
    | (session, .error (.error _)) => .ok { w with session := Function.update w.session s session }
    | (_, .error (.fault f)) => .error f
  | .beginStatement c s place => w.report c fun call now => call.beginStatement s place now
  | .endStatement c s place rows isError =>
    w.report c fun call now => call.endStatement s place now rows isError
  | .endCall c aborted owner =>
    match w.running c with
    | none => .ok w
    | some (s, call) => do
      let access ← call.finish (w.clock s).now aborted owner w.region
      return { w with region := access.region, running := Function.update w.running c none }
  | .abandonCall c => .ok { w with running := Function.update w.running c none }
  | .invalidate s unit => do
    let (session, region, _) ← (w.session s).invalidate unit w.region
    return { w with session := Function.update w.session s session, region := region }
  | .reset scope => do
    let (region, _) ← w.region.resetAll scope
    return { w with region := region }
  | .inquire s owner what => do
    let (session, region) ← what.run (w.session s) owner w.region
    return { w with session := Function.update w.session s session, region := region }

/-- Actions one after another. -/
def run : List Action → Interpreters → Except Fault Interpreters
  | [], w => .ok w
  | a :: actions, w => do
    let w' ← w.act a
    run actions w'

end Interpreters

/-! ### What sessions do to a region -/

namespace Region

variable {r r' : Region}

/-- A tidy region in which the counters of every stored record fit together. -/
structure Kept (r : Region) : Prop where
  tidy : r.Tidy
  sane : r.Sane

theorem kept_create (capacity unitCapacity : UInt64) : (create capacity unitCapacity).Kept :=
  ⟨tidy_create capacity unitCapacity, sane_create capacity unitCapacity⟩

theorem Kept.of_same (h : r.Kept) (hs : Same r r') : r'.Kept := ⟨h.tidy.of_same hs, h.sane.of_same hs⟩

theorem Kept.of_chunks (h : r.Kept) (hs : r'.Settled ∧ r'.chunks = r.chunks) : r'.Kept :=
  ⟨h.tidy.of_chunks hs.1 hs.2, h.sane.of_chunks hs.2⟩

theorem Kept.fold (h : r.Kept) {o : Owner} {id : Identity} {records : List Record}
    (hrecords : SanePage records) {access : Access (Except StoreError Unit)}
    (hrun : r.fold o id records = .ok access) : access.region.Kept :=
  ⟨(h.tidy.fold hrun).1, h.sane.fold h.tidy.settled hrecords hrun⟩

theorem Kept.reset (h : r.Kept) {scope : ResetScope} {n : Nat} (hrun : r.reset scope = .ok (r', n)) :
    r'.Kept := ⟨h.tidy.reset hrun, h.sane.reset h.tidy.settled hrun⟩

theorem Kept.resetStats (h : r.Kept) (unit : Option UnitKey) : (r.resetStats unit).1.Kept :=
  h.of_chunks (h.tidy.settled.resetStats unit)

theorem Kept.resetAll (h : r.Kept) {scope : ResetScope} {n : Nat}
    (hrun : r.resetAll scope = .ok (r', n)) : r'.Kept := by
  cases scope with
  | all =>
    have hreset : (r.resetStats none).1.reset .all = .ok (r', n) := hrun
    exact (h.resetStats none).reset hreset
  | incarnation id =>
    have hreset : r.reset (.incarnation id) = .ok (r', n) := hrun
    exact h.reset hreset
  | unit key =>
    have hreset : (r.resetStats (some key)).1.reset (.unit key) = .ok (r', n) := hrun
    exact (h.resetStats (some key)).reset hreset

/-- The end of a call, however much of it was accepted. -/
theorem Kept.finish (h : r.Kept) {c : Call} (hc : c.tally.Sane) {now : Counter} {aborted : Bool} {o : Owner}
    {access : Access (Except ProfileError Unit)} (hrun : c.finish now aborted o r = .ok access) :
    access.region.Kept := by
  rcases Call.finish_cases hrun with ⟨e, -, rfl⟩ | ⟨records, counted, folded, hrecords, hcounted, hfolded, hr, -⟩
  · exact h
  · have hkept := h.of_chunks (recordCall_eq_ok h.tidy.settled hcounted)
    rw [hr]
    exact hkept.fold (fun _ hx => Call.sane_records hc hrecords hx) hfolded

end Region

namespace Session

variable {s s' : Session} {o : Owner} {r r' : Region} {α : Type}

/-- Loading a profile leaves the same chunks in the same slots. -/
theorem same_load (h : r.Settled) {p : Procedure}
    {stored : Access (Except WalkError (Numbering × Option (List Record)))}
    (hrun : s.load p o r = .ok (s', stored)) : Region.Same r stored.region := by
  unfold load at hrun
  dsimp only at hrun
  split at hrun
  · cases hrun
    exact .refl h
  · cases hrun
  · rename_i m _
    obtain ⟨access, hread, hrun⟩ := bind_eq_ok_iff.1 hrun
    cases hrun
    exact (Region.reads_readRecords h o m.identity).same access hread

theorem same_readWith (h : r.Settled) {p : Procedure}
    {f : Numbering → Option (List Record) → Except (Stop WalkError) α} {access : Access (Except WalkError α)}
    (hrun : s.readWith p o r f = .ok (s', access)) : Region.Same r access.region := by
  obtain ⟨⟨s₁, stored⟩, hload, hrun⟩ := bind_eq_ok_iff.1 hrun
  have hsame := same_load h hload
  dsimp only at hrun
  split at hrun
  · cases hrun
    exact hsame
  · split at hrun
    · cases hrun
      exact hsame
    · cases hrun
      exact hsame
    · cases hrun

end Session

/-- Reading keeps a region as it should be. -/
theorem Inquiry.kept {what : Inquiry} {s s' : Session} {o : Owner} {r r' : Region} (h : r.Kept)
    (hrun : what.run s o r = .ok (s', r')) : r'.Kept := by
  have hsettled := h.tidy.settled
  cases what with
  | result p =>
    obtain ⟨⟨s₁, access⟩, hread, he⟩ := map_eq_ok_iff.1 hrun
    cases he
    exact h.of_same (Session.same_readWith hsettled hread)
  | lineProfile p source =>
    obtain ⟨⟨s₁, access⟩, hread, he⟩ := map_eq_ok_iff.1 hrun
    cases he
    exact h.of_same (Session.same_readWith hsettled hread)
  | coverage p =>
    obtain ⟨⟨s₁, access⟩, hread, he⟩ := map_eq_ok_iff.1 hrun
    cases he
    exact h.of_same (Session.same_readWith hsettled hread)
  | report p source generatedAt =>
    obtain ⟨⟨s₁, access⟩, hreport, he⟩ := map_eq_ok_iff.1 hrun
    cases he
    -- the profile is read first, and then the call statistics
    obtain ⟨⟨s₂, parts⟩, hread, hreport⟩ := bind_eq_ok_iff.1 hreport
    obtain ⟨access₁, hparts, hreport⟩ := bind_eq_ok_iff.1 hreport
    cases hreport
    obtain ⟨access₂, hthen, he⟩ := bind_eq_ok_iff.1 hparts
    cases he
    have hkept := h.of_same (Session.same_readWith hsettled hread)
    dsimp only at hthen
    split at hthen
    · cases hthen
      exact hkept
    · obtain ⟨summary, hsummary, hthen⟩ := bind_eq_ok_iff.1 hthen
      cases hthen
      exact hkept.of_chunks (hkept.tidy.settled.summary? hsummary)
  | summaries db =>
    obtain ⟨access, hread, he⟩ := map_eq_ok_iff.1 hrun
    cases he
    obtain ⟨found, hfound, hread⟩ := bind_eq_ok_iff.1 hread
    obtain ⟨found', hfound', hfound⟩ := bind_eq_ok_iff.1 hfound
    have hkept := hsettled.summariesAt hfound'
    cases hfound
    cases hread
    exact h.of_chunks hkept

/-! ### What every action keeps -/

namespace Interpreters

variable {w w' : Interpreters}

/-- The counters of the stored records fit together, and so do those of the calls that run. -/
structure Sane (w : Interpreters) : Prop where
  region : w.region.Kept
  calls : ∀ c s call, w.running c = some (s, call) → call.tally.Sane

theorem sane_start (capacity unitCapacity : UInt64) (clock : Nat → Clock) :
    (start capacity unitCapacity clock).Sane :=
  ⟨Region.kept_create capacity unitCapacity, fun _ _ _ h => by cases h⟩

/-- Another call under a name. -/
theorem Sane.calls_update (h : w.Sane) (c : Nat) {call? : Option (Nat × Call)}
    (hcall : ∀ s call, call? = some (s, call) → call.tally.Sane) (c' s : Nat) (call : Call)
    (hc' : Function.update w.running c call? c' = some (s, call)) : call.tally.Sane := by
  by_cases hc : c' = c
  · rw [hc, Function.update_self] at hc'
    exact hcall s call hc'
  · rw [Function.update_of_ne hc] at hc'
    exact h.calls c' s call hc'

theorem Sane.report (h : w.Sane) {c : Nat} {f : Call → Counter → Except (Stop WalkError) Call}
    (hf : ∀ call call' now, call.tally.Sane → f call now = .ok call' → call'.tally.Sane)
    (hact : w.report c f = .ok w') : w'.Sane := by
  unfold Interpreters.report at hact
  split at hact
  · cases hact
    exact h
  · rename_i s call hrunning
    split at hact
    · rename_i call' hcall'
      cases hact
      refine ⟨h.region, h.calls_update c fun s' call'' he => ?_⟩
      cases he
      exact hf call _ _ (h.calls c s call hrunning) hcall'
    · cases hact
      exact h
    · cases hact

theorem sane_beginCall {s : Session} {p : Procedure} {now : Counter} {call : Call}
    (h : (s.beginCall p now).2 = .ok (some call)) : call.tally.Sane := by
  unfold Session.beginCall at h
  split_ifs at h
  · cases h
  · dsimp only at h
    cases hm : (s.cache.buildOrGet p).2 with
    | error e =>
      rw [hm] at h
      cases h
    | ok m =>
      rw [hm] at h
      cases h
      exact Tally.sane_new m now

/-- Every action keeps the counters fitting together. -/
theorem Sane.act (h : w.Sane) {a : Action} (hact : w.act a = .ok w') : w'.Sane := by
  cases a with
  | setClock s now =>
    cases hact
    exact ⟨h.region, h.calls⟩
  | advanceClock s delta =>
    cases hact
    exact ⟨h.region, h.calls⟩
  | setEnabled s enabled =>
    cases hact
    exact ⟨h.region, h.calls⟩
  | beginCall s c p =>
    unfold Interpreters.act at hact
    dsimp only at hact
    split at hact
    · rename_i session call? hbegin
      cases hact
      refine ⟨h.region, h.calls_update c fun s' call he => ?_⟩
      obtain ⟨call', rfl, he⟩ := Option.map_eq_some_iff.1 he
      cases he
      exact sane_beginCall (congrArg Prod.snd hbegin)
    · cases hact
      exact ⟨h.region, h.calls⟩
    · cases hact
  | beginStatement c s place =>
    rw [Interpreters.act] at hact
    exact h.report (fun _ _ _ hcall hrun => Call.sane_beginStatement hcall hrun) hact
  | endStatement c s place rows isError =>
    rw [Interpreters.act] at hact
    exact h.report (fun _ _ _ hcall hrun => Call.sane_endStatement hcall hrun) hact
  | endCall c aborted o =>
    unfold Interpreters.act at hact
    dsimp only at hact
    split at hact
    · cases hact
      exact h
    · rename_i s call hrunning
      obtain ⟨access, hfinish, hact⟩ := bind_eq_ok_iff.1 hact
      cases hact
      exact ⟨h.region.finish (h.calls c s call hrunning) hfinish,
        h.calls_update c fun _ _ he => by cases he⟩
  | abandonCall c =>
    cases hact
    exact ⟨h.region, h.calls_update c fun _ _ he => by cases he⟩
  | invalidate s unit =>
    obtain ⟨⟨session, region, n⟩, hinvalidate, hact⟩ := bind_eq_ok_iff.1 hact
    cases hact
    refine ⟨?_, h.calls⟩
    cases unit with
    | none =>
      cases hinvalidate
      exact h.region
    | some key =>
      obtain ⟨⟨region', n'⟩, hreset, hinvalidate⟩ := bind_eq_ok_iff.1 hinvalidate
      cases hinvalidate
      exact h.region.reset hreset
  | reset scope =>
    obtain ⟨⟨region, n⟩, hreset, hact⟩ := bind_eq_ok_iff.1 hact
    cases hact
    exact ⟨h.region.resetAll hreset, h.calls⟩
  | inquire s o what =>
    obtain ⟨⟨session, region⟩, hrun, hact⟩ := bind_eq_ok_iff.1 hact
    cases hact
    exact ⟨Inquiry.kept h.region hrun, h.calls⟩

theorem Sane.run (h : w.Sane) {actions : List Action} (hrun : run actions w = .ok w') : w'.Sane := by
  induction actions generalizing w with
  | nil =>
    cases hrun
    exact h
  | cons a actions ih =>
    obtain ⟨w₁, hact, hrun⟩ := bind_eq_ok_iff.1 hrun
    exact ih (h.act hact) hrun

/-- In a store that only sessions write to, no statement failed more often than it ran, no longest time is longer
than the total, and a statement that never ran has nothing counted; whatever the interpreters do. -/
theorem stored_counters_sane (capacity unitCapacity : UInt64) (clock : Nat → Clock) (actions : List Action)
    (hrun : run actions (start capacity unitCapacity clock) = .ok w) :
    ∀ chunk ∈ w.region.dump, ∀ x ∈ chunk.records,
      x.errorCount ≤ x.execCount ∧ x.maxTime ≤ x.totalTime ∧
      (x.execCount = 0 → x.totalTime = 0 ∧ x.maxTime = 0 ∧ x.rows = 0 ∧ x.errorCount = 0) := by
  have hsane := (sane_start capacity unitCapacity clock).run hrun
  intro chunk hchunk x hx
  have hx' := hsane.region.sane.dump hsane.region.tidy.settled.sound hchunk x hx
  exact ⟨hx'.error_le, hx'.max_le, hx'.idle⟩

/-- A block around a conditional with two arms. -/
def branching : Procedure :=
  .compile 5 ⟨1, 1, 0, 0⟩ "branching"
    (.block ⟨none, 1⟩ none [.cond ⟨none, 2⟩ [.simple ⟨none, 3⟩ .assign none] []
      (some [.simple ⟨none, 5⟩ .raise none])] [])

/-- A call whose clock goes back and which is aborted inside the conditional, with reports that it refuses; and
a second call without any report. -/
def restlessActions : List Action :=
  let assign : Statement := .simple ⟨none, 3⟩ .assign none
  let cond : Statement := .cond ⟨none, 2⟩ [assign] [] (some [.simple ⟨none, 5⟩ .raise none])
  [.setClock 0 100, .beginCall 0 0 branching, .beginStatement 0 branching.body (.inTree 5 0),
    .beginStatement 0 cond (.inTree 5 1), .advanceClock 0 7, .beginStatement 0 assign (.inTree 5 2),
    .setClock 0 50, .endStatement 0 assign (.inTree 5 2) 3 false, .beginStatement 0 assign .detached,
    .endStatement 0 assign (.inTree 6 0) 1 true, .setClock 0 120, .beginCall 1 1 branching,
    .advanceClock 1 9, .endCall 0 true .local, .inquire 1 .local (.result branching),
    .endCall 1 false .local, .invalidate 0 (some ⟨9, 9⟩), .reset (.unit ⟨2, 2⟩)]

/-- Executions, failures, longest and total time of the first statements of each chunk. -/
def firstCounters (w : Interpreters) : List (List (Counter × Counter × Counter × Counter)) :=
  w.region.dump.map fun chunk =>
    (chunk.records.take 4).map fun x => (x.execCount, x.errorCount, x.maxTime, x.totalTime)

theorem stored_counters_sane_restless :
    ∃ w, run restlessActions (start 4 2 fun _ => ⟨0⟩) = .ok w ∧
      firstCounters w = [[(2, 1, 9, 9), (1, 1, 20, 20), (1, 0, 0, 0), (0, 0, 0, 0)]] ∧
      ∀ chunk ∈ w.region.dump, ∀ x ∈ chunk.records,
        x.errorCount ≤ x.execCount ∧ x.maxTime ≤ x.totalTime ∧
        (x.execCount = 0 → x.totalTime = 0 ∧ x.maxTime = 0 ∧ x.rows = 0 ∧ x.errorCount = 0) := by
  obtain ⟨w, hrun, hcounters⟩ := map_eq_ok_iff.1 (by decide +kernel :
    firstCounters <$> run restlessActions (start 4 2 fun _ => ⟨0⟩) =
      .ok [[(2, 1, 9, 9), (1, 1, 20, 20), (1, 0, 0, 0), (0, 0, 0, 0)]])
  exact ⟨w, hrun, hcounters, stored_counters_sane 4 2 _ restlessActions hrun⟩

end Interpreters

end ProcProfile
