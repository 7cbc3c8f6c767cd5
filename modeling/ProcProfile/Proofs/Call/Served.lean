import Mathlib.Tactic
import ProcProfile.Proofs.Call.Ending
import ProcProfile.Proofs.Numbering.Listing
import ProcProfile.Proofs.Recency
import ProcProfile.Proofs.Region.Room

/-!
# Calls that a session began

A session keeps numberings by handle, and a numbering without ids knows statements by where they live.  A call of a
copy that is as it was when it was numbered is never refused by its numbering, neither a report about a statement of
its tree nor the walk at its end.  If the root of the copy has moved since then, reports about the root are refused, and
so is the end of every call.

* `Session.Used`, `Session.kept`: sessions that were used in any way, and the copies that they keep;
* `Call.report`, `Call.reportAll`, `Call.endsIn_reportAll`: reports that may be refused;
* `Call.ending_effects_apart`: the end of every call, from its begin on;
* `Procedure.moved`, `Call.refused_of_moved`: calls of a copy that was moved after it was numbered.
-/

namespace ProcProfile

/-! ### From begin to end -/

/-- A session that was used in any way, and what its cache was asked meanwhile.  Whatever is read off a profile, the
profile is loaded first. -/
inductive Session.Used : List CacheRequest → Session → Prop
  | new : Used [] Session.new
  | setEnabled {requests : List CacheRequest} {s : Session} (h : Used requests s) (enabled : Bool) :
    Used requests { s with enabled := enabled }
  | beginCall {requests : List CacheRequest} {s : Session} (h : Used requests s) (p : Procedure) (now : Counter) :
    Used (requests ++ if !s.enabled || p.isAnonymous then [] else [.numbering p]) (s.beginCall p now).1
  | load {requests : List CacheRequest} {s s' : Session} (h : Used requests s) {p : Procedure} {o : Owner} {r : Region}
    {stored : Access (Except WalkError (Numbering × Option (List Record)))}
    (hrun : s.load p o r = .ok (s', stored)) : Used (requests ++ [.numbering p]) s'
  | invalidate {requests : List CacheRequest} {s s' : Session} (h : Used requests s) {unit : Option UnitKey}
    {r r' : Region} {n : Nat} (hrun : s.invalidate unit r = .ok (s', r', n)) :
    Used (requests ++ [.invalidate unit]) s'

/-- The copies whose numberings a session keeps, as they were when they were numbered. -/
abbrev Session.kept (requests : List CacheRequest) : List Procedure :=
  CacheRequest.rememberAll NumberingCache.defaultLimit requests

theorem Session.cache_load {s s' : Session} {p : Procedure} {o : Owner} {r : Region}
    {stored : Access (Except WalkError (Numbering × Option (List Record)))}
    (hrun : s.load p o r = .ok (s', stored)) : s'.cache = (s.cache.buildOrGet p).1 := by
  unfold load at hrun
  dsimp only at hrun
  split at hrun
  · cases hrun
    rfl
  · cases hrun
  · obtain ⟨access, -, hrun⟩ := bind_eq_ok_iff.1 hrun
    cases hrun
    rfl

theorem Session.cache_invalidate {s s' : Session} {unit : Option UnitKey} {r r' : Region} {n : Nat}
    (hrun : s.invalidate unit r = .ok (s', r', n)) : s'.cache = (s.cache.invalidate unit).1 := by
  cases unit with
  | none =>
    cases hrun
    rfl
  | some key =>
    obtain ⟨out, -, hrun⟩ := bind_eq_ok_iff.1 hrun
    cases hrun
    rfl

/-- The cache of a session is one that served the requests. -/
theorem Session.Used.cache_eq {requests : List CacheRequest} {s : Session} (h : s.Used requests) :
    s.cache = NumberingCache.new.serveAll requests := by
  induction h with
  | new => rfl
  | setEnabled h enabled ih => exact ih
  | beginCall h p now ih =>
    unfold Session.beginCall
    split_ifs with hoff
    · rw [List.append_nil]
      exact ih
    · rw [NumberingCache.serveAll_concat, ← ih]
      rfl
  | load h hrun ih =>
    rw [Session.cache_load hrun, NumberingCache.serveAll_concat, ← ih]
    rfl
  | invalidate h hrun ih =>
    rw [Session.cache_invalidate hrun, NumberingCache.serveAll_concat, ← ih]
    rfl

/-- A call begins with the numbering of its copy as it was when it was numbered. -/
theorem Session.Used.beginCall_eq_ok {requests : List CacheRequest} {s : Session} (h : s.Used requests)
    {p : Procedure} {now : Counter} {c : Call} (hbegin : (s.beginCall p now).2 = .ok (some c)) :
    ∃ m, Numbering.build (CacheRequest.asNumbered (kept requests) p) = .ok m ∧ c = ⟨p, m, Tally.new m now⟩ := by
  have hremembers := NumberingCache.remembers_serveAll NumberingCache.defaultLimit requests
  have hanswer := (hremembers.buildOrGet p).2
  change ((NumberingCache.new.serveAll requests).buildOrGet p).2 =
    Numbering.build (CacheRequest.asNumbered (kept requests) p) at hanswer
  rw [← h.cache_eq] at hanswer
  unfold Session.beginCall at hbegin
  split_ifs at hbegin with hoff
  · cases hbegin
  · dsimp only at hbegin
    rw [hanswer] at hbegin
    cases hbuild : Numbering.build (CacheRequest.asNumbered (kept requests) p) with
    | error e =>
      rw [hbuild] at hbegin
      cases hbegin
    | ok m =>
      rw [hbuild] at hbegin
      cases hbegin
      exact ⟨m, rfl, rfl⟩

theorem Session.beginCall_new {p : Procedure} {m : Numbering} (hbuild : Numbering.build p = .ok m)
    (hnamed : p.isAnonymous = false) (now : Counter) :
    (Session.new.beginCall p now).2 = .ok (some ⟨p, m, Tally.new m now⟩) := by
  unfold Session.beginCall
  rw [hnamed, if_neg (by decide)]
  dsimp only
  rw [NumberingCache.buildOrGet_built rfl hbuild]
  rfl

namespace Call

variable {c : Call} {p : Procedure}

/-- One report, which may be refused. -/
def report (c : Call) : TimedHook (Statement × Place) → Except (Stop WalkError) Call
  | .begin (s, place) now => c.beginStatement s place now
  | .finish (s, place) now rows isError => c.endStatement s place now rows isError

/-- Reports one after another, up to the first that is refused. -/
def reportAll (c : Call) (hooks : List (TimedHook (Statement × Place))) : Except (Stop WalkError) Call :=
  hooks.foldlM report c

/-- A later state of a call: its tally may be another one, of the same begin. -/
def Continues (c c' : Call) : Prop := ∃ t : Tally, c' = { c with tally := t } ∧ t.startedAt = c.tally.startedAt

/-- What every report can end in, reports one after another end in. -/
theorem endsIn_reportAll {bad : Stop WalkError → Prop} {hooks : List (TimedHook (Statement × Place))}
    (hreport : ∀ c', c.Continues c' → ∀ hook ∈ hooks, EndsIn c'.Continues bad (c'.report hook)) :
    EndsIn c.Continues bad (c.reportAll hooks) := by
  induction hooks generalizing c with
  | nil => exact .ok ⟨c.tally, rfl, rfl⟩
  | cons hook hooks ih =>
    rw [reportAll, List.foldlM_cons]
    refine (hreport c ⟨c.tally, rfl, rfl⟩ hook (by simp)).bind fun c₁ hc₁ => ?_
    obtain ⟨t₁, rfl, hstart₁⟩ := hc₁
    have hlater : ∀ c', Continues { c with tally := t₁ } c' → c.Continues c' := by
      rintro c' ⟨t, rfl, hstart⟩
      exact ⟨t, rfl, hstart.trans hstart₁⟩
    refine EndsIn.imp (ih (c := { c with tally := t₁ }) fun c' hc' hook' hhook' => ?_) hlater fun _ h => h
    exact hreport c' (hlater c' hc') hook' (by simp [hhook'])

/-- A report about a statement of its own tree reaches the tally of a call under its position. -/
theorem report_locate (hbuild : Numbering.build p = .ok c.numbering) {hook : TimedHook Nat}
    (hwhat : hook.what < p.body.count) :
    c.report (hook.rename p.locate) =
      (fun t => { c with tally := t }) <$> Stop.ofFault (c.tally.take hook) := by
  have hs : p.body.preorder[hook.what]? = some (p.body.preorder.getD hook.what p.body) := by
    rw [← Statement.length_preorder] at hwhat
    simp [List.getElem?_eq_getElem hwhat]
  have hid := Numbering.naturalId_of_build hbuild hs
  cases hook with
  | begin i now =>
    change c.beginStatement (p.body.preorder.getD i p.body) (p.places i) now = _
    rw [TimedHook.what] at hid
    rw [beginStatement, hid, map_eq_pure_bind]
    rfl
  | finish i now rows isError =>
    change c.endStatement (p.body.preorder.getD i p.body) (p.places i) now rows isError = _
    rw [TimedHook.what] at hid
    rw [endStatement, hid, map_eq_pure_bind]
    rfl

/-- A report about a statement of its own tree is never refused. -/
theorem endsIn_report (hbuild : Numbering.build p = .ok c.numbering) {hook : TimedHook Nat}
    (hwhat : hook.what < p.body.count) :
    EndsIn c.Continues (· = .fault .addOverflow) (c.report (hook.rename p.locate)) := by
  have htake : EndsIn (fun t => t.startedAt = c.tally.startedAt) (· = .addOverflow) (c.tally.take hook) := by
    cases hook with
    | begin i now => exact c.tally.endsIn_begin now i
    | finish i now rows isError => exact c.tally.endsIn_finish now i rows isError
  rw [report_locate hbuild hwhat]
  refine EndsIn.map (Stop.endsIn_ofFault (htake.imp (fun _ h => h) fun f hf => ?_)) fun t ht => ⟨t, rfl, ht⟩
  rw [hf]

/-- A report changes the tally of a call only, unless it is refused or a sum overflows. -/
theorem answers_report (c : Call) (hook : TimedHook (Statement × Place)) :
    EndsIn c.Continues (fun stop => stop = .fault .addOverflow ∨ ∃ e, stop = .error e) (c.report hook) := by
  have htally : ∀ (s : Statement) (place : Place) (f : Nat → Except Fault Tally),
      (∀ id, EndsIn (fun t => t.startedAt = c.tally.startedAt) (· = .addOverflow) (f id)) →
      EndsIn c.Continues (fun stop => stop = .fault .addOverflow ∨ ∃ e, stop = .error e) (do
          let id ← Stop.ofError (c.numbering.naturalId s place)
          let t ← Stop.ofFault (f id)
          return { c with tally := t }) := by
    intro s place f hf
    cases c.numbering.naturalId s place with
    | error e => exact .error (.inr ⟨e, rfl⟩)
    | ok id =>
      have hrun : EndsIn (fun t => t.startedAt = c.tally.startedAt)
          (fun stop => stop = .fault .addOverflow ∨ ∃ e, stop = .error e) (Stop.ofFault (ε := WalkError) (f id)) :=
        Stop.endsIn_ofFault ((hf id).imp (fun _ h => h) fun _ h => .inl (congrArg Stop.fault h))
      exact hrun.bind fun t ht => .ok ⟨t, rfl, ht⟩
  cases hook with
  | begin a now => exact htally a.1 a.2 _ fun id => c.tally.endsIn_begin now id
  | finish a now rows isError => exact htally a.1 a.2 _ fun id => c.tally.endsIn_finish now id rows isError

/-- Let a call begin in a session that was used in any way.  Unless its copy was changed or moved after it was numbered,
reports about its own statements are never refused, and neither is the walk at its end.  When it ends, after any
requests to the store, its records are folded as they would be without the call being counted, and it is counted as
it would be without the fold; if the walk is refused, nothing is done.  Only a sum that overflows keeps it from that. -/
theorem ending_effects_apart {asked : List CacheRequest} {s : Session} (hs : s.Used asked) {start : Counter}
    (hbegin : (s.beginCall p start).2 = .ok (some c)) {hooks : List (TimedHook Nat)}
    (hhooks : ∀ hook ∈ hooks, hook.what < p.body.count) {capacity unitCapacity : UInt64}
    {requests : List StoreRequest} {r : Region}
    (hr : Region.serveAll requests (Region.create capacity unitCapacity) = .ok r) (stop : Counter)
    (aborted : Bool) (o : Owner) :
    let unchanged := CacheRequest.Unchanged (Session.kept asked) p
    let id := (CacheRequest.asNumbered (Session.kept asked) p).identity
    (unchanged → id = p.identity) ∧
    EndsIn (fun c' =>
        EndsIn (fun access =>
            (∃ records folded, c'.records stop = .ok (.ok records) ∧ r.fold o id records = .ok folded ∧
              Ending r id records (Counter.since stop start) aborted folded access) ∨
            ¬ unchanged ∧ ∃ e, c'.records stop = .ok (.error e) ∧ access = .pure r (.error (.walk e)))
          (fun f => f = .addOverflow ∧ c'.EndOverflow stop aborted o r) (c'.finish stop aborted o r))
      (fun f => f = .fault .addOverflow ∨ ¬ unchanged ∧ ∃ e, f = .error e)
      (c.reportAll (hooks.map fun hook => hook.rename p.locate)) := by
  intro unchanged id
  have htidy := (Region.tidy_create capacity unitCapacity).serveAll hr
  obtain ⟨m, hbuild, rfl⟩ := hs.beginCall_eq_ok hbegin
  obtain ⟨-, hidentity, -⟩ := Numbering.build_eq_ok hbuild
  have hid : m.identity = id := hidentity
  by_cases hsame : unchanged
  · have hnumbered : CacheRequest.asNumbered (Session.kept asked) p = p := hsame.asNumbered_eq
    rw [hnumbered] at hbuild
    refine ⟨fun _ => congrArg Procedure.identity hnumbered, ?_⟩
    have hreports : EndsIn (Continues ⟨p, m, Tally.new m start⟩) (· = .fault .addOverflow)
        (reportAll ⟨p, m, Tally.new m start⟩ (hooks.map fun hook => hook.rename p.locate)) := by
      refine endsIn_reportAll fun c' hc' hook hhook => ?_
      obtain ⟨t, rfl, -⟩ := hc'
      obtain ⟨hook, hmem, rfl⟩ := List.mem_map.1 hhook
      exact endsIn_report hbuild (hhooks hook hmem)
    refine hreports.imp (fun c' hc' => ?_) fun _ h => .inl h
    obtain ⟨t, rfl, hstart⟩ := hc'
    have hfinish := endsIn_finish ⟨p, m, t⟩ htidy stop aborted o
    have hrecords := endsIn_records (c := ⟨p, m, t⟩) hbuild stop
    dsimp only at hfinish hstart
    rw [hid, hstart] at hfinish
    refine hfinish.imp (fun access haccess => haccess.imp_right ?_) fun _ h => h
    -- the walk over the tree that was numbered is not refused
    rintro ⟨e, he, -⟩
    rw [he, endsIn_ok_iff] at hrecords
    obtain ⟨records, hrecords⟩ := hrecords
    cases hrecords
  · refine ⟨fun h => absurd h hsame, ?_⟩
    refine (endsIn_reportAll fun c' _ hook _ => c'.answers_report hook).imp (fun c' hc' => ?_)
      fun _ h => h.imp_right (And.intro hsame)
    obtain ⟨t, rfl, hstart⟩ := hc'
    have hfinish := endsIn_finish ⟨p, m, t⟩ htidy stop aborted o
    dsimp only at hfinish hstart
    rw [hid, hstart] at hfinish
    exact hfinish.imp (fun access haccess => haccess.imp_right (And.intro hsame)) fun _ h => h

/-- A block around an assignment. -/
def briefCopy (handle : Handle) : Procedure :=
  .compile handle ⟨1, 1, 0, 0⟩ "brief" (.block ⟨none, 1⟩ none [.simple ⟨none, 2⟩ .assign none] [])

def briefNumbering : Numbering where
  identity := ⟨1, 1, 0, 0⟩
  index := .lines (.ofList (briefCopy 5).places (briefCopy 5).body.preorder)
  nativeIds := [none, none]
  lines := [1, 2]
  fingerprints := [none, none]

def briefCall : Call := ⟨briefCopy 5, briefNumbering, Tally.new briefNumbering 10⟩

/-- The assignment runs when the call is aborted. -/
def briefHooks : List (TimedHook Nat) := [.begin 0 11, .begin 1 12]

/-- The profile of another layout, and calls of two other procedures. -/
def otherLayout : List StoreRequest :=
  [.fold .local ⟨1, 1, 0, 0⟩ [.ofLine 9], .recordCall .local ⟨2, 1⟩ 4 false, .recordCall .local ⟨3, 1⟩ 4 false]

/-- The fold is refused, and the table of call statistics is full. -/
theorem ending_effects_apart_brief :
    (Session.new.beginCall (briefCopy 5) 10).2 = .ok (some briefCall) ∧
    ∃ c' r access, briefCall.reportAll (briefHooks.map fun hook => hook.rename (briefCopy 5).locate) = .ok c' ∧
      Region.serveAll otherLayout (Region.create 4 2) = .ok r ∧ c'.finish 30 true .local r = .ok access ∧
      access.answer = .error (.store (.recordMismatch 1 9)) ∧
      ∃ records folded, c'.records 30 = .ok (.ok records) ∧
        r.fold .local ⟨1, 1, 0, 0⟩ records = .ok folded ∧ Ending r ⟨1, 1, 0, 0⟩ records 20 true folded access := by
  have hbegin : (Session.new.beginCall (briefCopy 5) 10).2 = .ok (some briefCall) := rfl
  have hanswer : (do
      let c' ← briefCall.reportAll (briefHooks.map fun hook : TimedHook Nat => hook.rename (briefCopy 5).locate)
      let r ← Stop.ofFault (Region.serveAll otherLayout (Region.create 4 2))
      let access ← Stop.ofFault (c'.finish 30 true .local r)
      return access.answer) = .ok (.error (.store (.recordMismatch 1 9))) := by decide +kernel
  obtain ⟨c', hreport, hanswer⟩ := bind_eq_ok_iff.1 hanswer
  obtain ⟨r, hr, hanswer⟩ := bind_eq_ok_iff.1 hanswer
  obtain ⟨access, hfinish, hanswer⟩ := bind_eq_ok_iff.1 hanswer
  rw [Stop.ofFault_eq_ok_iff] at hr hfinish
  have hhooks : ∀ hook ∈ briefHooks, hook.what < (briefCopy 5).body.count := by decide
  have hends := (ending_effects_apart .new hbegin hhooks hr 30 true .local).2
  rw [hreport, endsIn_ok_iff, hfinish, endsIn_ok_iff] at hends
  refine ⟨hbegin, c', r, access, hreport, hr, hfinish, Except.ok.inj hanswer, hends.resolve_right fun hchanged => ?_⟩
  exact hchanged.1 fun q hq => by cases hq

end Call

/-! ### Calls that cannot end -/

/-- A copy at another place: its root is a part of it and moves with it, the statements inside stay. -/
def Procedure.moved (p : Procedure) (root : Place) (hroot : ∀ i, p.places i ≠ root) : Procedure :=
  { p with
    places := Function.update p.places 0 root
    places_apart := by
      have hfirst : ∀ i, Function.update p.places 0 root i = root → i = 0 := by
        intro i hi
        by_contra hne
        rw [Function.update_of_ne hne] at hi
        exact hroot i hi
      intro i j hij
      by_cases hi : i = 0
      · subst hi
        rw [Function.update_self] at hij
        exact (hfirst j hij.symm).symm
      · have hj : j ≠ 0 := by
          rintro rfl
          rw [Function.update_self] at hij
          exact hi (hfirst i hij)
        rw [Function.update_of_ne hi, Function.update_of_ne hj] at hij
        exact p.places_apart hij }

namespace Call

section Moved

variable {p : Procedure} {m : Numbering} {root : Place} (hroot : ∀ i, p.places i ≠ root)

/-- A numbering without ids does not know the root where it lives after a move. -/
theorem naturalId_moved (hbuild : Numbering.build p = .ok m) (hnative : p.body.nativeId = none) :
    m.naturalId p.body ((p.moved root hroot).places 0) = .error (.unmappedStatement p.body.line) := by
  have hends := Numbering.endsIn_build p
  rw [hbuild, endsIn_ok_iff] at hends
  have hplace : (p.moved root hroot).places 0 = root := by simp [Procedure.moved]
  rw [hplace]
  exact hends.stands_not hnative p.body root fun n _ heq => hroot n heq.symm

theorem report_moved (hbuild : Numbering.build p = .ok m) (hnative : p.body.nativeId = none) (t : Tally)
    (now : Counter) :
    beginStatement ⟨p.moved root hroot, m, t⟩ p.body ((p.moved root hroot).places 0) now =
      .error (.error (.unmappedStatement p.body.line)) := by
  rw [beginStatement, naturalId_moved hroot hbuild hnative]
  rfl

/-- Every call of a copy that was moved after it was numbered without ids is lost when it ends. -/
theorem endsIn_finish_moved (hbuild : Numbering.build p = .ok m) (hnative : p.body.nativeId = none) (t : Tally)
    (now : Counter) (aborted : Bool) (o : Owner) (r : Region) :
    EndsIn (fun access => access = .pure r (.error (.walk (.unmappedStatement p.body.line)))) (· = .addOverflow)
      (finish ⟨p.moved root hroot, m, t⟩ now aborted o r) := by
  have hfold : ∀ t : Tally, t.fold m (p.moved root hroot) = .ok (.error (.unmappedStatement p.body.line), t) := by
    intro t
    rw [Tally.fold, SelfTime.visit_eq]
    change ((·.2) <$> do
      let id ← (liftM (m.naturalId p.body ((p.moved root hroot).places 0)) : SelfTime Nat)
      let a ← SelfTime.inside m (p.moved root hroot).places (0 + 1) p.body
      return (a.1, ← SelfTime.settle p.body id a.2) : SelfTime Counter).run.run t = _
    rw [naturalId_moved hroot hbuild hnative]
    rfl
  have hrecords : EndsIn (fun answer => answer = .error (.unmappedStatement p.body.line)) (· = .addOverflow)
      (records ⟨p.moved root hroot, m, t⟩ now) := by
    rw [records]
    refine (t.endsIn_closeOpen now).bind fun closed _ => ?_
    dsimp only
    rw [hfold]
    exact .ok rfl
  rw [finish]
  refine hrecords.bind fun answer hanswer => ?_
  rw [hanswer]
  exact .ok rfl

/-- Let a session keep the numbering of a copy without ids, and the copy be moved.  In every call of it reports about
its root are refused, and the call is lost when it ends, whatever was reported in between. -/
theorem refused_of_moved {asked : List CacheRequest} {s : Session} (hs : s.Used asked) (hkept : p ∈ Session.kept asked)
    (hnative : p.body.nativeId = none) {start : Counter} {c c' : Call}
    (hbegin : (s.beginCall (p.moved root hroot) start).2 = .ok (some c)) (hc' : c.Continues c') :
    (∀ now, c'.beginStatement p.body ((p.moved root hroot).places 0) now =
      .error (.error (.unmappedStatement p.body.line))) ∧
    ∀ now aborted o r, EndsIn (fun access => access = .pure r (.error (.walk (.unmappedStatement p.body.line))))
      (· = .addOverflow) (c'.finish now aborted o r) := by
  have hnodup := (NumberingCache.remembers_serveAll NumberingCache.defaultLimit asked).nodup_recent
  have hnumbered : CacheRequest.asNumbered (Session.kept asked) (p.moved root hroot) = p :=
    CacheRequest.asNumbered_of_mem hnodup hkept rfl
  obtain ⟨m, hbuild, rfl⟩ := hs.beginCall_eq_ok hbegin
  rw [hnumbered] at hbuild
  obtain ⟨t, rfl, -⟩ := hc'
  exact ⟨report_moved hroot hbuild hnative t, endsIn_finish_moved hroot hbuild hnative t⟩

end Moved

/-- A block around `n` assignments. -/
def longCopy (n : Nat) : Procedure :=
  .compile 6 ⟨1, 1, 1, 0⟩ "long" (.block ⟨none, 1⟩ none (List.replicate n (.simple ⟨none, 2⟩ .assign none)) [])

theorem count_longCopy (n : Nat) : (longCopy n).body.count = n + 1 := by
  have hcounts : Statement.counts (List.replicate n (.simple ⟨none, 2⟩ .assign none)) = n := by
    induction n with
    | zero => rfl
    | succ n ih =>
      rw [List.replicate_succ, Statement.counts_cons, ih, Nat.add_comm]
      rfl
  rw [Statement.count_eq, longCopy, Procedure.compile, Statement.nested_block, List.flatten_nil, List.append_nil, hcounts]

theorem isAnonymous_longCopy (n : Nat) : (longCopy n).isAnonymous = false := rfl

theorem build_longCopy {n : Nat} (hn : n < 2 ^ 31) : ∃ m, Numbering.build (longCopy n) = .ok m := by
  have hlisting : (longCopy n).body.listing.length = n + 1 := by
    rw [← Statement.preorder_eq_listing, Statement.length_preorder, count_longCopy]
  have hcount : (longCopy n).statementCount = n + 1 := count_longCopy n
  have hends := Numbering.endsIn_build (longCopy n)
  cases hbuild : Numbering.build (longCopy n) with
  | ok m => exact ⟨m, rfl⟩
  | error stop =>
    rw [hbuild, endsIn_error_iff] at hends
    have hshort : n + 1 ≤ Numbering.maxEntries := hn
    rcases hends with hfull | ⟨-, hfull⟩ | ⟨-, hunindexed⟩ | ⟨-, -, -, hother⟩
    · have hroom := Numbering.room_of_le (hcount ▸ hshort)
      omega
    · omega
    · exact (hunindexed.false (hlisting ▸ hshort) fun hnative => by cases hnative).elim
    · omega

/-- A call that ends at once leaves one record for each statement. -/
theorem exists_records_new {p : Procedure} {m : Numbering} (hbuild : Numbering.build p = .ok m) (now : Counter) :
    ∃ list, records ⟨p, m, Tally.new m now⟩ now = .ok (.ok list) ∧ list.length = p.body.count := by
  have htimed := timed_new hbuild now
  have hmeasured : measured ⟨p, m, Tally.new m now⟩ now = fun _ => 0 := by
    funext i
    exact Nat.le_zero.1 ((htimed.measured_le i).trans (Nat.sub_self now.toNat).le)
  have hfit : Statement.inclusive (measured ⟨p, m, Tally.new m now⟩ now) 0 p.body = 0 := by
    rw [hmeasured]
    exact Statement.inclusive_eq fun k s _ => by simp
  have hends := htimed.endsIn_records (hfit.trans_lt (by norm_num))
  cases hrun : records ⟨p, m, Tally.new m now⟩ now with
  | error f =>
    rw [hrun, endsIn_error_iff] at hends
    obtain ⟨-, hover | hover⟩ := hends
    all_goals norm_num at hover
  | ok answer =>
    rw [hrun, endsIn_ok_iff] at hends
    obtain ⟨list, rfl, hown⟩ := hends
    exact ⟨list, rfl, hown.length⟩

/-- A call that can be read but not folded does not end. -/
theorem finish_eq_error {c : Call} {r : Region} (h : r.Tidy) {now : Counter} {list : List Record} {o : Owner}
    (hrecords : c.records now = .ok (.ok list)) (hfold : r.fold o c.numbering.identity list = .error .addOverflow)
    (aborted : Bool) : c.finish now aborted o r = .error .addOverflow := by
  have hends := c.endsIn_finish h now aborted o
  cases hrun : c.finish now aborted o r with
  | error f =>
    rw [hrun, endsIn_error_iff] at hends
    rw [hends.1]
  | ok access =>
    rw [hrun, endsIn_ok_iff, hrecords] at hends
    rcases hends with ⟨records, folded, hsame, hfolded, -⟩ | ⟨e, he, -⟩
    · cases hsame
      rw [hfold] at hfolded
      cases hfolded
    · cases he

def movedCopy : Procedure := (briefCopy 5).moved (.elsewhere 1) fun i h => by cases h

/-- The profile of a copy is read, then the copy is moved and called: its root is not known any more.  And a call of
982981 statements, none of which ran, does not end although there is room for its records. -/
theorem ending_refused_or_stopped :
    (∃ s stored c, Session.new.load (briefCopy 5) .local (Region.create 4 2) = .ok (s, stored) ∧
      (s.beginCall movedCopy 10).2 = .ok (some c) ∧
      c.beginStatement movedCopy.body (movedCopy.places 0) 11 = .error (.error (.unmappedStatement 1)) ∧
      c.finish 30 false .local (Region.create 4 2) =
        .ok (.pure (Region.create 4 2) (.error (.walk (.unmappedStatement 1))))) ∧
    ∃ c list, (Session.new.beginCall (longCopy 982980) 0).2 = .ok (some c) ∧
      c.records 0 = .ok (.ok list) ∧ chunksNeeded list.length = 32767 ∧
      ((Region.create 32768 10000).info false).freeChunks = 32768 ∧
      c.finish 0 false .local (Region.create 32768 10000) = .error .addOverflow := by
  constructor
  · exact ⟨_, _, _, rfl, rfl, rfl, rfl⟩
  · obtain ⟨m, hbuild⟩ := build_longCopy (n := 982980) (by norm_num)
    obtain ⟨list, hrecords, hlength⟩ := exists_records_new hbuild 0
    have hneeded : chunksNeeded list.length = 32767 := by
      rw [hlength, count_longCopy]
      norm_num [chunksNeeded, recordsPerChunk]
    have hfree := Region.freeChunks_create 32768 10000 false
    have habsent : ∀ c ∈ (Region.create 32768 10000).dump, c.key.identity ≠ m.identity := by
      simp [Region.dump_create]
    have hfold : (Region.create 32768 10000).fold .local m.identity list = .error .addOverflow :=
      (Region.tidy_create 32768 10000).fold_past_last habsent .local (by rw [hneeded]; norm_num) (by rw [hfree]; decide)
    refine ⟨⟨longCopy 982980, m, Tally.new m 0⟩, list, ?_, hrecords, hneeded, hfree, ?_⟩
    · exact Session.beginCall_new hbuild (isAnonymous_longCopy _) 0
    · exact finish_eq_error (Region.tidy_create 32768 10000) hrecords hfold false

end Call

end ProcProfile
