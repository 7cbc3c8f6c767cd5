import Mathlib.Tactic
import ProcProfile.Proofs.Numbering
import ProcProfile.Proofs.Tally.SelfTime
import ProcProfile.Session

/-!
# What a call leaves behind

A host reports begins and ends of statements to a call, in any order.  The log of a call is the list of these
reports, and the records that the call leaves are determined by its log as far as counts go.

* `Hook`, `Hook.begins`, `Hook.cleanEnds`, `Hook.credit`: reports, and what is counted about a log of them;
* `Session.beginCall_cases`: what becomes of a request to begin a call;
* `Call.Follows`: a call of a copy to which a log was reported;
* `Call.Follows.beginStatement`, `Call.Follows.endStatement`: one more report;
* `Call.Follows.records`: the counts in the records that a call leaves;
* `Call.finish_cases`: what the end of a call does to a region, and what it answers.
-/

namespace ProcProfile

/-- A report to a call about the statement at a position of its tree.  An end may be that of an execution
that failed, and may find the statement running or not. -/
inductive Hook where
  | begin (i : Nat)
  | finish (i : Nat) (isError ran : Bool)
  deriving DecidableEq, Repr

namespace Hook

/-- How often a statement began. -/
def begins (i : Nat) (log : List Hook) : Nat := log.count (.begin i)

/-- How often a running statement ended without an error. -/
def cleanEnds (i : Nat) (log : List Hook) : Nat := log.count (.finish i false true)

/-- The execution that the root of a tree is credited with if it never began. -/
def credit (i : Nat) (log : List Hook) : Nat := if i = 0 ∧ begins 0 log = 0 then 1 else 0

theorem begins_append_begin (i j : Nat) (log : List Hook) :
    begins i (log ++ [.begin j]) = begins i log + if i = j then 1 else 0 := by
  rw [begins, begins, List.count_append]
  by_cases hij : i = j
  · simp [hij]
  · simp [hij, Ne.symm hij]

theorem begins_append_finish (i j : Nat) (isError ran : Bool) (log : List Hook) :
    begins i (log ++ [.finish j isError ran]) = begins i log := by
  simp [begins, List.count_append]

theorem cleanEnds_append_begin (i j : Nat) (log : List Hook) :
    cleanEnds i (log ++ [.begin j]) = cleanEnds i log := by
  simp [cleanEnds, List.count_append]

theorem cleanEnds_append_finish (i j : Nat) (isError ran : Bool) (log : List Hook) :
    cleanEnds i (log ++ [.finish j isError ran]) =
      cleanEnds i log + if i = j ∧ ran = true ∧ isError = false then 1 else 0 := by
  rw [cleanEnds, cleanEnds, List.count_append]
  by_cases hij : i = j
  · cases isError <;> cases ran <;> simp [hij]
  · simp [hij, Ne.symm hij]

end Hook

/-- What becomes of a request to begin a call of a copy: nothing is profiled, or a new call begins, or the tree
cannot be numbered. -/
theorem Session.beginCall_cases {copy : Handle → Procedure} {s : Session} (h : s.cache.Faithful copy)
    {handle : Handle} (hhandle : (copy handle).handle = handle) (now : Counter) :
    ∃ s' : Session, s'.cache.Faithful copy ∧
      (s.beginCall (copy handle) now = (s', .ok none) ∨
      (∃ m, Numbering.build (copy handle) = .ok m ∧
        s.beginCall (copy handle) now = (s', .ok (some ⟨copy handle, m, Tally.new m now⟩))) ∨
      ∃ e, s.beginCall (copy handle) now = (s', .error e)) := by
  obtain ⟨hcache, hnumbering⟩ := h.buildOrGet hhandle
  unfold Session.beginCall
  split_ifs with hoff
  · exact ⟨s, h, .inl rfl⟩
  · refine ⟨{ s with cache := (s.cache.buildOrGet (copy handle)).1 }, hcache, .inr ?_⟩
    dsimp only
    rw [hnumbering]
    cases hbuild : Numbering.build (copy handle) with
    | ok m => exact .inl ⟨m, rfl, rfl⟩
    | error e => exact .inr ⟨e, rfl⟩

namespace Call

open Hook

/-- A call of a copy, after the reports of a log. -/
structure Follows (c : Call) (p : Procedure) (log : List Hook) : Prop where
  procedure : c.procedure = p
  numbering : Numbering.build p = .ok c.numbering
  sites : c.tally.sites = c.numbering.lines.zip c.numbering.fingerprints
  tracked : c.tally.Tracked
  begun : ∀ i, c.tally.begun i = begins i log
  clean : ∀ i, c.tally.clean i = cleanEnds i log

variable {c : Call} {p : Procedure} {log : List Hook}

theorem follows_new {m : Numbering} (h : Numbering.build p = .ok m) (now : Counter) :
    Follows ⟨p, m, Tally.new m now⟩ p [] := by
  obtain ⟨hsites, htracked, hbegun, hclean⟩ := Tally.new_eq m now
  exact ⟨rfl, h, hsites, htracked, hbegun, hclean⟩

theorem Follows.map_fst_sites (h : c.Follows p log) :
    c.tally.sites.map Prod.fst = p.body.preorder.map Statement.line := by
  obtain ⟨-, -, hlines, hfingerprints⟩ := Numbering.build_eq_ok h.numbering
  rw [h.sites, List.map_fst_zip (by simp [hlines, hfingerprints]), hlines]

theorem Follows.size_eq (h : c.Follows p log) : c.tally.size = p.body.count := by
  rw [← Tally.length_sites, ← List.length_map Prod.fst, h.map_fst_sites, List.length_map,
    Statement.length_preorder]

theorem Follows.naturalId (h : c.Follows p log) {i : Nat} {s : Statement} (hs : p.body.preorder[i]? = some s) :
    c.numbering.naturalId s (c.procedure.places i) = .ok i := by
  rw [h.procedure]
  exact Numbering.naturalId_of_build h.numbering hs

/-- A begin is never refused; unless a counter overflows, it is counted. -/
theorem Follows.beginStatement (h : c.Follows p log) {i : Nat} {s : Statement}
    (hs : p.body.preorder[i]? = some s) (now : Counter) :
    (∃ f, c.beginStatement s (c.procedure.places i) now = .error (.fault f)) ∨
    ∃ c', c.beginStatement s (c.procedure.places i) now = .ok c' ∧
      c'.Follows p (log ++ [.begin i]) := by
  have hi : i < c.tally.size := by
    rw [h.size_eq, ← Statement.length_preorder]
    exact (List.getElem?_eq_some_iff.1 hs).1
  have hstep : c.beginStatement s (c.procedure.places i) now = (do
      let t ← Stop.ofFault (c.tally.begin i now)
      return { c with tally := t }) := by
    rw [Call.beginStatement, h.naturalId hs]
    rfl
  rw [hstep]
  cases ht : c.tally.begin i now with
  | error f => exact .inl ⟨f, rfl⟩
  | ok t =>
    obtain ⟨hsites, htracked, hbegun, hclean⟩ := Tally.begin_eq_ok h.tracked hi ht
    refine .inr ⟨{ c with tally := t }, rfl, h.procedure, h.numbering, hsites.trans h.sites, htracked,
      fun j => ?_, fun j => ?_⟩
    · rw [hbegun, h.begun, begins_append_begin]
    · rw [hclean, h.clean, cleanEnds_append_begin]

/-- An end is never refused; unless a counter overflows, it ends what runs. -/
theorem Follows.endStatement (h : c.Follows p log) {i : Nat} {s : Statement}
    (hs : p.body.preorder[i]? = some s) (now rows : Counter) (isError : Bool) :
    (∃ f, c.endStatement s (c.procedure.places i) now rows isError = .error (.fault f)) ∨
    ∃ c', c.endStatement s (c.procedure.places i) now rows isError = .ok c' ∧
      c'.Follows p (log ++ [.finish i isError (c.tally.isOpen i)]) := by
  have hstep : c.endStatement s (c.procedure.places i) now rows isError = (do
      let t ← Stop.ofFault (c.tally.finish i now rows isError)
      return { c with tally := t }) := by
    rw [Call.endStatement, h.naturalId hs]
    rfl
  rw [hstep]
  cases ht : c.tally.finish i now rows isError with
  | error f => exact .inl ⟨f, rfl⟩
  | ok t =>
    obtain ⟨hsites, htracked, -, hbegun, hclean⟩ := Tally.finish_eq_ok h.tracked ht
    refine .inr ⟨{ c with tally := t }, rfl, h.procedure, h.numbering, hsites.trans h.sites, htracked,
      fun j => ?_, fun j => ?_⟩
    · rw [hbegun, h.begun, begins_append_finish]
    · rw [hclean, h.clean, cleanEnds_append_finish]
      push_cast
      rfl

/-- The records of a call that ends: the lines of its tree, and the counts of its log.  What still runs is
counted as failed, and the root is counted once even if it never began. -/
theorem Follows.records (h : c.Follows p log) {now : Counter} {records : List Record}
    (hr : c.records now = .ok (.ok records)) :
    records.map Record.line = p.body.preorder.map Statement.line ∧
    ∀ i < p.body.count, ∃ x, records[i]? = some x ∧
      x.execCount.toNat = begins i log + credit i log ∧
      x.execCount.toNat = x.errorCount.toNat + cleanEnds i log + credit i log := by
  rw [Call.records] at hr
  obtain ⟨⟨t, n⟩, hclose, hr⟩ := bind_eq_ok_iff.1 hr
  obtain ⟨⟨time, t'⟩, hfold, hr⟩ := bind_eq_ok_iff.1 hr
  obtain ⟨hsites, hidle, hbegun, hclean⟩ := Tally.closeOpen_eq_ok h.tracked hclose
  have hsize : t.size = p.body.count := by
    rw [← h.size_eq, ← Tally.length_sites, ← Tally.length_sites, hsites]
  obtain ⟨hsites', herr, hexec⟩ := Tally.creditEntry_eq (by rw [hsize]; exact p.body.count_pos) now
  have hsame := Tally.fold_eq_ok hfold
  -- nothing runs any more, so that all that began is counted
  have hexecLog : ∀ i, t.exec i = begins i log := by
    intro i
    rw [← h.begun, ← hbegun, Tally.begun, hidle]
    rfl
  cases time with
  | error e => cases hr
  | ok time =>
    cases hr
    refine ⟨?_, fun i hi => ?_⟩
    · rw [Tally.map_line_toRecords, hsame.sites, hsites', hsites, h.map_fst_sites]
    · have hi' : i < t'.size := by
        rwa [← Tally.length_sites, hsame.sites, hsites', Tally.length_sites, hsize]
      obtain ⟨x, hx, hxexec, hxerr⟩ := Tally.getElem?_toRecords hi'
      have hcleanLog := (hclean i).trans (h.clean i)
      rw [Tally.clean, hexecLog] at hcleanLog
      rw [hsame.exec, hexec, hexecLog, hexecLog] at hxexec
      rw [hsame.err, herr] at hxerr
      refine ⟨x, hx, hxexec, ?_⟩
      rw [hxexec, hxerr, credit]
      omega

/-- What the end of a call comes to: nothing, if its tree cannot be walked; or else the call is counted for its
procedure and its records are folded, and of two failures that of the fold is told. -/
theorem finish_cases {now : Counter} {aborted : Bool} {o : Owner} {r : Region}
    {access : Access (Except ProfileError Unit)} (h : c.finish now aborted o r = .ok access) :
    (∃ e, c.records now = .ok (.error e) ∧ access = .pure r (.error (.walk e))) ∨
    ∃ records counted folded, c.records now = .ok (.ok records) ∧
      r.recordCall o c.numbering.identity.unitKey (Counter.since now c.tally.startedAt) aborted =
        .ok counted ∧
      counted.region.fold o c.numbering.identity records = .ok folded ∧ access.region = folded.region ∧
      access.answer =
        folded.answer.mapError ProfileError.store >>= fun _ => counted.answer.mapError ProfileError.store := by
  rw [finish] at h
  obtain ⟨answer, hrecords, h⟩ := bind_eq_ok_iff.1 h
  cases answer with
  | error e =>
    cases h
    exact .inl ⟨e, hrecords, rfl⟩
  | ok records =>
    dsimp only at h
    obtain ⟨counted, hcounted, h⟩ := bind_eq_ok_iff.1 h
    obtain ⟨after, hafter, h⟩ := bind_eq_ok_iff.1 h
    obtain ⟨folded, hfolded, hafter⟩ := bind_eq_ok_iff.1 hafter
    cases hafter
    cases h
    refine .inr ⟨records, counted, folded, hrecords, hcounted, hfolded, rfl, ?_⟩
    cases hf : folded.answer with
    | error e => simp only [Access.map, hf]; rfl
    | ok u => simp only [Access.map, hf]; rfl

/-- A call that ends well is counted for its procedure, and its records are folded. -/
theorem finish_eq_ok {now : Counter} {aborted : Bool} {o : Owner} {r : Region}
    {access : Access (Except ProfileError Unit)} (h : c.finish now aborted o r = .ok access)
    (hanswer : access.answer = .ok ()) :
    ∃ records counted folded, c.records now = .ok (.ok records) ∧
      r.recordCall o c.numbering.identity.unitKey (Counter.since now c.tally.startedAt) aborted =
        .ok counted ∧
      counted.region.fold o c.numbering.identity records = .ok folded ∧ folded.answer = .ok () ∧
      access.region = folded.region := by
  rcases finish_cases h with ⟨e, -, rfl⟩ | ⟨records, counted, folded, hrecords, hcounted, hfolded, hr, he⟩
  · cases hanswer
  · refine ⟨records, counted, folded, hrecords, hcounted, hfolded, ?_, hr⟩
    rw [hanswer] at he
    obtain ⟨u, hu, -⟩ := bind_eq_ok_iff.1 he.symm
    cases hf : folded.answer with
    | error e =>
      rw [hf] at hu
      cases hu
    | ok u => rfl

end Call

end ProcProfile
