import Mathlib.Algebra.BigOperators.Group.List.Basic
import Mathlib.Logic.Function.Basic
import Mathlib.Tactic
import ProcProfile.Proofs.Call
import ProcProfile.Proofs.Region.Incarnations
import ProcProfile.Proofs.Region.Statistics

/-!
# What is counted, from the reports to the store

Any number of sessions work on one store, each with a clock of its own.  Their calls may overlap, and what is
reported about statements may come in any order, with ends left out or reported twice.  The counts that end up
in the store are still those of the reports.

* `Sessions`, `SessionEvent`, `Sessions.step`, `Sessions.run`: sessions over one store;
* `Totals`: the counts of a record are those of the logs of some calls;
* `Balanced`: the stored profiles hold the totals of the calls that ended;
* `Sessions.Sound`, `Sound.step`, `Sound.run`: what every event keeps;
* `run_totals`: after every run the store holds the totals of the calls that ended.
-/

namespace ProcProfile

open Hook

/-! ### Sessions over one store -/

/-- Compiled copies by their handles; the copies of one incarnation have equal trees. -/
structure Copies (copy : Handle → Procedure) : Prop where
  handle_eq : ∀ handle, (copy handle).handle = handle
  body_eq : ∀ handle handle', (copy handle).identity = (copy handle').identity →
    (copy handle).body = (copy handle').body

/-- A call that runs, the session that began it, and what was reported to it. -/
structure Running where
  session : Nat
  call : Call
  log : List Hook

/-- Sessions over one store.  Sessions and calls are named by numbers. -/
structure Sessions where
  region : Region
  session : Nat → Session
  clock : Nat → Clock
  running : Nat → Option Running
  /-- The incarnation and the log of every call that ended. -/
  ended : List (Identity × List Hook)

/-- What a host may do. -/
inductive SessionEvent where
  | setClock (session : Nat) (now : Counter)
  | advanceClock (session : Nat) (delta : Counter)
  | setEnabled (session : Nat) (enabled : Bool)
  /-- Drops the numberings that a session keeps. -/
  | dropNumberings (session : Nat)
  /-- A copy is called; a call that has the name already is given up. -/
  | beginCall (session call : Nat) (copy : Handle)
  | beginStatement (call i : Nat)
  | endStatement (call i : Nat) (rows : Counter) (isError : Bool)
  /-- A call ends, and its session uses the store as an owner. -/
  | endCall (call : Nat) (aborted : Bool) (owner : Owner)

/-- Reports about the statement at a position to a call.  An error that the call answers is passed over. -/
def Running.report (run : Running) (i : Nat) (hook : Hook)
    (answer : Statement → Place → Except (Stop WalkError) Call) : Except (Stop ProfileError) Running :=
  match run.call.procedure.body.preorder[i]? with
  | none => .ok run
  | some s =>
    match answer s (run.call.procedure.places i) with
    | .ok call => .ok { run with call := call, log := run.log ++ [hook] }
    | .error (.error _) => .ok { run with log := run.log ++ [hook] }
    | .error (.fault f) => .error (.fault f)

namespace Sessions

/-- New sessions over a new store, with any clocks. -/
def start (capacity unitCapacity : UInt64) (clock : Nat → Clock) : Sessions where
  region := Region.create capacity unitCapacity
  session _ := Session.new
  clock := clock
  running _ := none
  ended := []

/-- Reports to a call, if there is one of the name. -/
def report (w : Sessions) (c : Nat) (f : Running → Counter → Except (Stop ProfileError) Running) :
    Except (Stop ProfileError) Sessions :=
  match w.running c with
  | none => .ok w
  | some run => do
    let run' ← f run (w.clock run.session).now
    return { w with running := Function.update w.running c (some run') }

/-- One event.  A fault stops everything, and so does a call that does not end well. -/
def step (copy : Handle → Procedure) (w : Sessions) : SessionEvent → Except (Stop ProfileError) Sessions
  | .setClock s now => .ok { w with clock := Function.update w.clock s ⟨now⟩ }
  | .advanceClock s delta => .ok { w with clock := Function.update w.clock s ((w.clock s).advance delta) }
  | .setEnabled s enabled =>
    .ok { w with session := Function.update w.session s { w.session s with enabled := enabled } }
  | .dropNumberings s => do
    let (session, region, _) ← Stop.ofFault ((w.session s).invalidate none w.region)
    return { w with session := Function.update w.session s session, region := region }
  | .beginCall s c handle =>
    match (w.session s).beginCall (copy handle) (w.clock s).now with
    | (session, .ok call) => .ok { w with
        session := Function.update w.session s session
        running := Function.update w.running c (call.map fun call => ⟨s, call, []⟩) }
    | (session, .error (.error _)) => .ok { w with session := Function.update w.session s session }
    | (_, .error (.fault f)) => .error (.fault f)
  | .beginStatement c i => w.report c fun run now =>
    run.report i (.begin i) fun s place => run.call.beginStatement s place now
  | .endStatement c i rows isError => w.report c fun run now =>
    run.report i (.finish i isError (run.call.tally.isOpen i)) fun s place =>
      run.call.endStatement s place now rows isError
  | .endCall c aborted owner =>
    match w.running c with
    | none => .ok w
    | some run => do
      let access ← Stop.ofFault (run.call.finish (w.clock run.session).now aborted owner w.region)
      Stop.ofError access.answer
      return { w with
        region := access.region
        running := Function.update w.running c none
        ended := (run.call.procedure.identity, run.log) :: w.ended }

/-- Events one after another. -/
def run (copy : Handle → Procedure) : List SessionEvent → Sessions → Except (Stop ProfileError) Sessions
  | [], w => .ok w
  | e :: events, w => do
    let w' ← w.step copy e
    run copy events w'

end Sessions

/-! ### Totals of calls -/

/-- The logs of the calls of an incarnation, from a list of calls. -/
def logsOf (id : Identity) (ended : List (Identity × List Hook)) : List (List Hook) :=
  (ended.filter fun e => e.1 = id).map Prod.snd

theorem logsOf_cons_self (id : Identity) (log : List Hook) (ended : List (Identity × List Hook)) :
    logsOf id ((id, log) :: ended) = log :: logsOf id ended := by
  simp [logsOf]

theorem logsOf_cons_of_ne {id id' : Identity} (h : id ≠ id') (log : List Hook)
    (ended : List (Identity × List Hook)) : logsOf id' ((id, log) :: ended) = logsOf id' ended := by
  simp [logsOf, h]

/-- The counts of a record of a statement are those of the logs of some calls: every begin is counted, with
one execution of the root for each call in which it never began; and what did not end without an error is
counted as failed. -/
structure Totals (x : Record) (i : Nat) (logs : List (List Hook)) : Prop where
  exec : x.execCount.toNat = (logs.map (begins i)).sum + (logs.map (credit i)).sum
  clean : x.execCount.toNat =
    x.errorCount.toNat + (logs.map (cleanEnds i)).sum + (logs.map (credit i)).sum

/-- A merged record has the totals of both sides. -/
theorem Totals.merge {x y z : Record} {i : Nat} {log : List Hook} {logs : List (List Hook)}
    (hx : Totals x i logs) (hy : Totals y i [log]) (h : x.merge y = .ok z) : Totals z i (log :: logs) := by
  obtain ⟨-, -, hexec, herr, -⟩ := Record.merge_eq_ok_iff.1 h
  have hxexec := hx.exec
  have hxclean := hx.clean
  have hyexec := hy.exec
  have hyclean := hy.clean
  constructor
  all_goals
    simp only [List.map_cons, List.map_nil, List.sum_cons, List.sum_nil] at *
    omega

/-- The profile of a copy with the totals of some calls. -/
structure ProfileOf (p : Procedure) (logs : List (List Hook)) (records : List Record) : Prop where
  lines : records.map Record.line = p.body.preorder.map Statement.line
  totals : ∀ i < p.body.count, ∃ x, records[i]? = some x ∧ Totals x i logs

theorem Call.Follows.profileOf {c : Call} {p : Procedure} {log : List Hook} (h : c.Follows p log)
    {now : Counter} {records : List Record} (hr : c.records now = .ok (.ok records)) :
    ProfileOf p [log] records := by
  obtain ⟨hlines, hcounts⟩ := h.records hr
  refine ⟨hlines, fun i hi => ?_⟩
  obtain ⟨x, hx, hexec, hclean⟩ := hcounts i hi
  exact ⟨x, hx, by simpa using hexec, by simpa using hclean⟩

/-- Merging a call into a profile adds its log. -/
theorem ProfileOf.merge {p : Procedure} {log : List Hook} {logs : List (List Hook)}
    {stored records merged : List Record} (hstored : ProfileOf p logs stored)
    (hrecords : ProfileOf p [log] records) (h : mergeRecords stored records = .ok merged) :
    ProfileOf p (log :: logs) merged := by
  have hlen : records.length = stored.length := by
    simpa using congrArg List.length (hrecords.lines.trans hstored.lines.symm)
  refine ⟨(map_line_mergeRecords hlen h).trans hstored.lines, fun i hi => ?_⟩
  obtain ⟨x, hx, hxtotals⟩ := hstored.totals i hi
  obtain ⟨y, hy, hytotals⟩ := hrecords.totals i hi
  obtain ⟨z, hz, hmerge⟩ := (mergeRecords_eq_ok_iff.1 h).2 i x y hx hy
  exact ⟨z, hz, hxtotals.merge hytotals hmerge⟩

/-! ### The store holds the totals of the calls that ended -/

section Balanced

open Region

variable {copy : Handle → Procedure} {r : Region} {ended : List (Identity × List Hook)} {a : Profiles}

/-- The store holds profiles of exactly the incarnations with a call that ended, with the totals of these
calls. -/
structure Balanced (copy : Handle → Procedure) (r : Region) (ended : List (Identity × List Hook))
    (a : Profiles) : Prop where
  stores : Stores r a
  absent : ∀ id, a id = none ↔ logsOf id ended = []
  profile : ∀ handle records, a (copy handle).identity = some records →
    ProfileOf (copy handle) (logsOf (copy handle).identity ended) records

theorem balanced_create (copy : Handle → Procedure) (capacity unitCapacity : UInt64) :
    Balanced copy (Region.create capacity unitCapacity) [] fun _ => none :=
  ⟨.create capacity unitCapacity, fun _ => iff_of_true rfl rfl, fun _ _ h => by cases h⟩

theorem Balanced.recordCall (h : Balanced copy r ended a) {o : Owner} {key : UnitKey} {elapsed : Counter}
    {isError : Bool} {access : Access (Except StoreError Unit)}
    (hrun : r.recordCall o key elapsed isError = .ok access) : Balanced copy access.region ended a :=
  ⟨h.stores.recordCall hrun, h.absent, h.profile⟩

/-- A call that is stored changes the profile of its incarnation only. -/
theorem Balanced.update (h : Balanced copy r ended a) (hcopies : Copies copy) {r' : Region}
    {handle : Handle} {log : List Hook} {records : List Record}
    (hstores : Stores r' (Function.update a (copy handle).identity (some records)))
    (hprofile : ProfileOf (copy handle) (log :: logsOf (copy handle).identity ended) records) :
    Balanced copy r' (((copy handle).identity, log) :: ended)
      (Function.update a (copy handle).identity (some records)) where
  stores := hstores
  absent id := by
    by_cases hid : (copy handle).identity = id
    · subst hid
      rw [Function.update_self, logsOf_cons_self]
      exact iff_of_false (Option.some_ne_none _) (List.cons_ne_nil _ _)
    · rw [Function.update_of_ne (Ne.symm hid), logsOf_cons_of_ne hid, h.absent]
  profile handle' records' hr := by
    by_cases hid : (copy handle).identity = (copy handle').identity
    · rw [← hid, Function.update_self, Option.some.injEq] at hr
      rw [← hid, logsOf_cons_self, ← hr]
      -- copies of one incarnation have one tree
      have hbody := hcopies.body_eq _ _ hid
      exact ⟨by rw [← hbody]; exact hprofile.lines, by rw [← hbody]; exact hprofile.totals⟩
    · rw [Function.update_of_ne (Ne.symm hid)] at hr
      rw [logsOf_cons_of_ne hid]
      exact h.profile handle' records' hr

/-- Folding the records of a call adds its log to the totals. -/
theorem Balanced.fold (h : Balanced copy r ended a) (hcopies : Copies copy)
    {handle : Handle} {log : List Hook} {records : List Record}
    (hrecords : ProfileOf (copy handle) [log] records) {o : Owner} {folded : Access (Except StoreError Unit)}
    (hrun : r.fold o (copy handle).identity records = .ok folded) (hanswer : folded.answer = .ok ()) :
    ∃ a', Balanced copy folded.region (((copy handle).identity, log) :: ended) a' := by
  cases hid : a (copy handle).identity with
  | none =>
    have hnil := (h.absent _).1 hid
    rcases h.stores.fold_new hid o records with ⟨he, -⟩ | ⟨r', he, -⟩ | ⟨r', he, hstores, -⟩
    · rw [he] at hrun
      cases hrun
    · rw [he] at hrun
      cases hrun
      cases hanswer
    · rw [he] at hrun
      cases hrun
      exact ⟨_, h.update hcopies hstores (by rwa [hnil])⟩
  | some stored =>
    have hstored := h.profile handle stored hid
    have hlines := hrecords.lines.trans hstored.lines.symm
    rcases h.stores.fold_lines hid o hlines with ⟨f, -, he⟩ | ⟨merged, r', hmerged, he, hstores, -⟩
    · rw [he] at hrun
      cases hrun
    · rw [he] at hrun
      cases hrun
      exact ⟨_, h.update hcopies hstores (hstored.merge hrecords hmerged)⟩

/-- A call that ends well adds its log to the totals. -/
theorem Balanced.finish (h : Balanced copy r ended a) (hcopies : Copies copy)
    {c : Call} {handle : Handle} {log : List Hook} (hc : c.Follows (copy handle) log) {now : Counter}
    {aborted : Bool} {o : Owner} {access : Access (Except ProfileError Unit)}
    (hrun : c.finish now aborted o r = .ok access) (hanswer : access.answer = .ok ()) :
    ∃ a', Balanced copy access.region (((copy handle).identity, log) :: ended) a' := by
  obtain ⟨records, counted, folded, hrecords, hcounted, hfolded, hok, hregion⟩ :=
    Call.finish_eq_ok hrun hanswer
  obtain ⟨-, hidentity, -⟩ := Numbering.build_eq_ok hc.numbering
  rw [hidentity] at hfolded
  rw [hregion]
  exact (h.recordCall hcounted).fold hcopies (hc.profileOf hrecords) hfolded hok

end Balanced

/-! ### Every event keeps the balance -/

namespace Sessions

variable {copy : Handle → Procedure} {w w' : Sessions}

/-- Sessions whose caches, calls and store are what the events so far make them. -/
structure Sound (copy : Handle → Procedure) (w : Sessions) : Prop where
  faithful : ∀ s, (w.session s).cache.Faithful copy
  follows : ∀ c run, w.running c = some run → ∃ handle, run.call.Follows (copy handle) run.log
  balanced : ∃ a, Balanced copy w.region w.ended a

theorem sound_start (copy : Handle → Procedure) (capacity unitCapacity : UInt64) (clock : Nat → Clock) :
    (start capacity unitCapacity clock).Sound copy where
  faithful _ := NumberingCache.faithful_new copy
  follows c run h := by cases h
  balanced := ⟨_, balanced_create copy capacity unitCapacity⟩

theorem Sound.faithful_update (h : w.Sound copy) (s : Nat) {session : Session}
    (hsession : session.cache.Faithful copy) (s' : Nat) :
    (Function.update w.session s session s').cache.Faithful copy := by
  by_cases hs : s' = s
  · subst hs
    rwa [Function.update_self]
  · rw [Function.update_of_ne hs]
    exact h.faithful s'

theorem Sound.follows_update (h : w.Sound copy) (c : Nat) {new : Option Running}
    (hnew : ∀ run, new = some run → ∃ handle, run.call.Follows (copy handle) run.log) (c' : Nat) (run : Running)
    (hrun : Function.update w.running c new c' = some run) :
    ∃ handle, run.call.Follows (copy handle) run.log := by
  by_cases hc : c' = c
  · subst hc
    rw [Function.update_self] at hrun
    exact hnew run hrun
  · rw [Function.update_of_ne hc] at hrun
    exact h.follows c' run hrun

/-- A report that the call takes, or that faults, keeps the log in step with the call. -/
theorem follows_report {run run' : Running} {p : Procedure} (h : run.call.Follows p run.log) {i : Nat}
    {hook : Hook} {answer : Statement → Place → Except (Stop WalkError) Call}
    (hanswer : ∀ s, p.body.preorder[i]? = some s →
      (∃ f, answer s (run.call.procedure.places i) = .error (.fault f)) ∨
      ∃ c, answer s (run.call.procedure.places i) = .ok c ∧ c.Follows p (run.log ++ [hook]))
    (hrun : run.report i hook answer = .ok run') : run'.call.Follows p run'.log := by
  rw [Running.report, h.procedure] at hrun
  rw [h.procedure] at hanswer
  cases hs : p.body.preorder[i]? with
  | none =>
    rw [hs] at hrun
    cases hrun
    exact h
  | some s =>
    rw [hs] at hrun
    dsimp only at hrun
    -- a call recognises the statements of its own tree, so that no error is passed over
    rcases hanswer s hs with ⟨f, hf⟩ | ⟨c, hc, hfollows⟩
    · rw [hf] at hrun
      cases hrun
    · rw [hc] at hrun
      cases hrun
      exact hfollows

theorem Sound.report (h : w.Sound copy) {c : Nat}
    {f : Running → Counter → Except (Stop ProfileError) Running}
    (hf : ∀ run run' now p, run.call.Follows p run.log → f run now = .ok run' →
      run'.call.Follows p run'.log)
    (hrun : w.report c f = .ok w') : w'.Sound copy := by
  rw [Sessions.report] at hrun
  cases hc : w.running c with
  | none =>
    rw [hc] at hrun
    cases hrun
    exact h
  | some run =>
    rw [hc] at hrun
    obtain ⟨run', hreport, hrun⟩ := bind_eq_ok_iff.1 hrun
    cases hrun
    obtain ⟨handle, hfollows⟩ := h.follows c run hc
    refine ⟨h.faithful, h.follows_update c fun new hnew => ?_, h.balanced⟩
    cases hnew
    exact ⟨handle, hf run run' _ _ hfollows hreport⟩

theorem Sound.beginCall (h : w.Sound copy) (hcopies : Copies copy) {s c : Nat} {handle : Handle}
    (hstep : w.step copy (.beginCall s c handle) = .ok w') : w'.Sound copy := by
  obtain ⟨session, hcache, hcases⟩ := Session.beginCall_cases (h.faithful s) (hcopies.handle_eq handle)
    (w.clock s).now
  rw [step] at hstep
  rcases hcases with he | ⟨m, hbuild, he⟩ | ⟨e, he⟩
  · rw [he] at hstep
    cases hstep
    refine ⟨h.faithful_update s hcache, h.follows_update c fun run hrun => ?_, h.balanced⟩
    cases hrun
  · rw [he] at hstep
    cases hstep
    refine ⟨h.faithful_update s hcache, h.follows_update c fun run hrun => ?_, h.balanced⟩
    cases hrun
    exact ⟨handle, Call.follows_new hbuild _⟩
  · rw [he] at hstep
    cases e with
    | fault f => cases hstep
    | error e =>
      cases hstep
      exact ⟨h.faithful_update s hcache, h.follows, h.balanced⟩

theorem Sound.endCall (h : w.Sound copy) (hcopies : Copies copy) {c : Nat}
    {aborted : Bool} {o : Owner} (hstep : w.step copy (.endCall c aborted o) = .ok w') : w'.Sound copy := by
  rw [step] at hstep
  cases hc : w.running c with
  | none =>
    rw [hc] at hstep
    cases hstep
    exact h
  | some run =>
    rw [hc] at hstep
    obtain ⟨access, hfinish, hstep⟩ := bind_eq_ok_iff.1 hstep
    obtain ⟨⟨⟩, hanswer, hstep⟩ := bind_eq_ok_iff.1 hstep
    rw [Stop.ofFault_eq_ok_iff] at hfinish
    rw [Stop.ofError_eq_ok_iff] at hanswer
    cases hstep
    -- the log moves from the call to the totals
    obtain ⟨handle, hfollows⟩ := h.follows c run hc
    obtain ⟨a, hbalanced⟩ := h.balanced
    refine ⟨h.faithful, h.follows_update c fun new hnew => ?_, ?_⟩
    · cases hnew
    · rw [hfollows.procedure]
      exact hbalanced.finish hcopies hfollows hfinish hanswer

/-- Every event keeps what the totals rest on. -/
theorem Sound.step (h : w.Sound copy) (hcopies : Copies copy)
    {e : SessionEvent} (hstep : w.step copy e = .ok w') : w'.Sound copy := by
  cases e with
  | setClock s now =>
    cases hstep
    exact ⟨h.faithful, h.follows, h.balanced⟩
  | advanceClock s delta =>
    cases hstep
    exact ⟨h.faithful, h.follows, h.balanced⟩
  | setEnabled s enabled =>
    cases hstep
    exact ⟨h.faithful_update s (h.faithful s), h.follows, h.balanced⟩
  | dropNumberings s =>
    cases hstep
    exact ⟨h.faithful_update s ((h.faithful s).invalidate none), h.follows, h.balanced⟩
  | beginCall s c handle => exact h.beginCall hcopies hstep
  | beginStatement c i =>
    rw [Sessions.step] at hstep
    refine h.report (fun run run' now p hfollows hreport => ?_) hstep
    exact follows_report hfollows (fun s hs => hfollows.beginStatement hs now) hreport
  | endStatement c i rows isError =>
    rw [Sessions.step] at hstep
    refine h.report (fun run run' now p hfollows hreport => ?_) hstep
    exact follows_report hfollows (fun s hs => hfollows.endStatement hs now rows isError) hreport
  | endCall c aborted o => exact h.endCall hcopies hstep

theorem Sound.run (h : w.Sound copy) (hcopies : Copies copy)
    {events : List SessionEvent} (hrun : run copy events w = .ok w') : w'.Sound copy := by
  induction events generalizing w with
  | nil =>
    cases hrun
    exact h
  | cons e events ih =>
    obtain ⟨w₁, hstep, hrun⟩ := bind_eq_ok_iff.1 hrun
    exact ih (h.step hcopies hstep) hrun

/-- After every run in which each call ended well, the store holds a profile of exactly the incarnations with
a call that ended.  The execution count of a statement is the number of its begins over these calls, with one
more for the root for each call in which it never began; and the executions that did not fail are the ends
without error that found the statement running, again with those of the root. -/
theorem run_totals {copy : Handle → Procedure} (hcopies : Copies copy) (capacity unitCapacity : UInt64)
    (clock : Nat → Clock) {events : List SessionEvent} {w : Sessions}
    (hrun : run copy events (start capacity unitCapacity clock) = .ok w) (o : Owner) (handle : Handle) :
    ∃ stored, (w.region.readRecords o (copy handle).identity).map Access.answer = .ok stored ∧
      (stored = none ↔ logsOf (copy handle).identity w.ended = []) ∧
      ∀ records, stored = some records → ∀ i < (copy handle).body.count, ∃ x, records[i]? = some x ∧
        Totals x i (logsOf (copy handle).identity w.ended) := by
  obtain ⟨a, hbalanced⟩ := ((sound_start copy capacity unitCapacity clock).run hcopies hrun).balanced
  refine ⟨_, hbalanced.stores.readRecords_eq o (copy handle).identity, ?_, fun records hrecords i hi => ?_⟩
  · rw [Option.map_eq_none_iff, hbalanced.absent]
  · obtain ⟨profile, hprofile, rfl⟩ := Option.map_eq_some_iff.1 hrecords
    obtain ⟨x, hx, htotals⟩ := (hbalanced.profile handle profile hprofile).totals i hi
    refine ⟨x, ?_, htotals⟩
    -- the pages of a profile are its records and then unused ones
    rw [Region.pagesFor_some hprofile, pagesOf, flatten_fillPages (length_le_chunksNeeded _)]
    rw [List.getElem?_append_left (List.getElem?_eq_some_iff.1 hx).1, hx]

/-- Two copies of a block around a loop around an assignment. -/
def sampleCopy (handle : Handle) : Procedure :=
  .compile handle ⟨1, 1, 0, 0⟩ "sample"
    (.block ⟨none, 1⟩ none [.loop ⟨none, 2⟩ .while [.simple ⟨none, 3⟩ .assign none]] [])

/-- Two overlapping calls of two sessions. -/
def sampleEvents : List SessionEvent :=
  [.setClock 0 10, .beginCall 0 0 5, .beginStatement 0 0, .beginStatement 0 1, .beginStatement 0 2,
    .advanceClock 0 3, .beginCall 1 1 6, .beginStatement 1 2, .endStatement 0 2 1 false,
    .beginStatement 0 2, .setClock 0 4, .endStatement 0 0 0 false, .endStatement 0 1 0 false,
    .endCall 0 false .local, .endStatement 1 2 0 true, .beginStatement 1 2, .beginStatement 1 2,
    .endCall 1 true .local]

/-- The logs of these calls: the first leaves the loop and an assignment without end, the second never begins
the block. -/
def sampleEnded : List (Identity × List Hook) :=
  [(⟨1, 1, 0, 0⟩, [.begin 2, .finish 2 true true, .begin 2, .begin 2]),
    (⟨1, 1, 0, 0⟩, [.begin 0, .begin 1, .begin 2, .finish 2 false true, .begin 2, .finish 0 false true,
      .finish 1 false false])]

theorem run_totals_sampleEvents :
    Copies sampleCopy ∧
    ∃ w, run sampleCopy sampleEvents (start 4 2 fun _ => ⟨0⟩) = .ok w ∧ w.ended = sampleEnded ∧
      ∃ records, (w.region.readRecords .local ⟨1, 1, 0, 0⟩).map Access.answer = .ok (some records) ∧
        ∀ i < 3, ∃ x, records[i]? = some x ∧ Totals x i (sampleEnded.map Prod.snd) := by
  have hcopies : Copies sampleCopy := ⟨fun _ => rfl, fun _ _ _ => rfl⟩
  obtain ⟨w, hrun, hended⟩ := map_eq_ok_iff.1 (by decide +kernel :
    (fun w => w.ended) <$> run sampleCopy sampleEvents (start 4 2 fun _ => ⟨0⟩) = .ok sampleEnded)
  obtain ⟨stored, hread, hnone, htotals⟩ := run_totals hcopies 4 2 _ hrun .local 5
  have hlogs : logsOf (sampleCopy 5).identity w.ended = sampleEnded.map Prod.snd := by
    rw [hended]
    decide
  rw [hlogs] at hnone htotals
  cases stored with
  | none => exact absurd (hnone.1 rfl) (by decide)
  | some records => exact ⟨hcopies, w, hrun, hended, records, hread, htotals records rfl⟩

end Sessions

end ProcProfile
