import Mathlib.Tactic
import ProcProfile.Proofs.Call
import ProcProfile.Proofs.Reading
import ProcProfile.Proofs.Region.Failures
import ProcProfile.Proofs.Region.Incarnations

/-!
# Which stored profile belongs to a copy

Two checks guard a stored profile against a copy of other lines.  A fold compares all the lines of a call with
those that are stored, up to the end of both.  Reading compares the lines of the tree only: it does not ask
whether the stored profile ends where the tree does.

* `StoreRequest.followAll`: requests to a store, with the lines of the calls folded so far;
* `Misread`: what reading reports about lines that are not stored so;
* `Reading.endsIn_items_lines`: a walk passes a stored profile if the lines of the tree begin the stored ones;
* `Session.Judges`, `Session.judges_readWith`: the same of what a session reads;
* `Session.read_iff_prefix_fold_iff_eq`: a profile is read if the lines of the copy begin the stored ones, and
  folded into if they are the stored ones;
* `Session.longer_profile_read`: the rows of a copy that are made from a longer profile.
-/

namespace ProcProfile

open Region

/-! ### Stores and the lines of their calls -/

namespace StoreRequest

/-- A request of profiling: any but an insertion of a single chunk, and no call with the reserved line. -/
def Profiling : StoreRequest → Prop
  | .fold _ _ records => ∀ c ∈ records, c.line ≠ Record.unusedLine
  | .insertChunk .. => False
  | _ => True

instance : DecidablePred Profiling
  | .fold _ _ records => inferInstanceAs (Decidable (∀ c ∈ records, c.line ≠ Record.unusedLine))
  | .insertChunk .. => inferInstanceAs (Decidable False)
  | .reset _ | .recordCall .. | .resetStats _ | .findChunk .. | .readRecords .. | .summary .. | .summaries _ =>
    inferInstanceAs (Decidable True)

/-- Serves a request, and keeps for each incarnation the lines of the call that was folded last. -/
def follow : StoreRequest → Region × (Identity → Option (List Int32)) →
    Except Fault (Region × (Identity → Option (List Int32)))
  | .fold o id records, state => (StoreOp.fold o id records).run state
  | .reset scope, state => (StoreOp.reset scope).run state
  | request, (r, lines) => do
    let r ← r.serve request
    return (r, lines)

/-- Serves requests one after another. -/
def followAll (requests : List StoreRequest) (state : Region × (Identity → Option (List Int32))) :
    Except Fault (Region × (Identity → Option (List Int32))) :=
  requests.foldlM (fun state request => request.follow state) state

end StoreRequest

section Followed

variable {r r' : Region} {lines lines' : Identity → Option (List Int32)} {a : Profiles}

theorem Region.Profiled.of_stores (h : Profiled r lines a) (hs : Stores r' a) : Profiled r' lines a :=
  ⟨hs, h.lines_eq, h.unreserved⟩

/-- Every request of profiling keeps the profiles whole. -/
theorem Region.Profiled.follow (h : Profiled r lines a) {request : StoreRequest} (hq : request.Profiling)
    (hrun : request.follow (r, lines) = .ok (r', lines')) : ∃ a', Profiled r' lines' a' := by
  by_cases hkeeps : request.KeepsChunks
  · have hserve : (do
        let r ← r.serve request
        return (r, lines)) = .ok (r', lines') := by
      rw [← hrun]
      cases request with
      | fold o id records => exact hkeeps.elim
      | insertChunk id number => exact hkeeps.elim
      | reset scope => exact hkeeps.elim
      | _ => rfl
    obtain ⟨r₁, hserved, hpair⟩ := bind_eq_ok_iff.1 hserve
    cases hpair
    rcases h.stores.settled.serve_keepsChunks hkeeps hserved with ⟨hsettled, hchunks⟩ | hsame
    · exact ⟨a, h.of_stores (h.stores.of_chunks hsettled hchunks)⟩
    · exact ⟨a, h.of_stores (h.stores.of_same hsame)⟩
  · cases request with
    | fold o id records =>
      have hop : (StoreOp.fold o id records).Unreserved := hq
      exact h.run hop hrun
    | reset scope =>
      have hop : (StoreOp.reset scope).Unreserved := trivial
      exact h.run hop hrun
    | insertChunk id number => exact hq.elim
    | _ => exact absurd trivial hkeeps

/-- So do any number of them. -/
theorem Region.Profiled.followAll (h : Profiled r lines a) {requests : List StoreRequest}
    (hqs : ∀ q ∈ requests, q.Profiling)
    (hrun : StoreRequest.followAll requests (r, lines) = .ok (r', lines')) :
    ∃ a', Profiled r' lines' a' := by
  unfold StoreRequest.followAll at hrun
  induction requests generalizing r lines a with
  | nil =>
    cases hrun
    exact ⟨a, h⟩
  | cons q requests ih =>
    rw [List.foldlM_cons] at hrun
    obtain ⟨⟨r₁, lines₁⟩, hfirst, hrest⟩ := bind_eq_ok_iff.1 hrun
    obtain ⟨a₁, h₁⟩ := h.follow (hqs q (by simp)) hfirst
    exact ih h₁ (fun q' hq' => hqs q' (by simp [hq'])) hrest

/-- What is read of a profile: its records, and unused ones up to the end of the last chunk. -/
theorem Region.Profiled.exists_records (h : Profiled r lines a) {id : Identity} {stored : List Int32}
    (hstored : lines id = some stored) (o : Owner) :
    ∃ base records n, a id = some base ∧ base.map Record.line = stored ∧ base <+: records ∧
      Access.answer <$> r.readRecords o id = .ok (some records) ∧
      records.map Record.line = stored ++ List.replicate n Record.unusedLine ∧
      stored.length + n = recordsPerChunk * chunksNeeded stored.length := by
  rw [h.lines_eq, Option.map_eq_some_iff] at hstored
  obtain ⟨base, hbase, rfl⟩ := hstored
  have hread : Access.answer <$> r.readRecords o id =
      .ok ((a id).map fun _ => (pagesFor a id).flatten) := h.stores.readRecords_eq o id
  have hle := length_le_chunksNeeded base.length
  have hflat : (pagesFor a id).flatten = base ++ List.replicate
      (recordsPerChunk * chunksNeeded base.length - base.length) Record.unused := by
    rw [pagesFor_some hbase]
    exact flatten_fillPages hle
  rw [hbase, Option.map_some, hflat] at hread
  refine ⟨base, _, recordsPerChunk * chunksNeeded base.length - base.length, hbase, rfl,
    List.prefix_append .., hread, ?_, ?_⟩
  · rw [List.map_append, List.map_replicate]
    rfl
  · rw [List.length_map]
    omega

/-- A further call of an incarnation is folded exactly if it has the stored lines. -/
theorem Region.Profiled.endsIn_fold (h : Profiled r lines a) {id : Identity} {base : List Record}
    (hbase : a id = some base) (o : Owner) {call : List Record}
    (hcall : ∀ c ∈ call, c.line ≠ Record.unusedLine) :
    EndsIn (fun access => access.answer = .ok () ↔ call.map Record.line = base.map Record.line)
      (MergeFaults base call) (r.fold o id call) := by
  cases hfold : r.fold o id call with
  | error f => exact .error (h.stores.fold_fault hbase hcall hfold)
  | ok access =>
    refine .ok ⟨fun hok => ?_, fun hlines => ?_⟩
    · rcases h.stores.fold_cases hbase o (h.unreserved id base hbase) hcall with
        ⟨f, he⟩ | ⟨r₁, e, he, -⟩ | hlines
      · rw [he] at hfold
        cases hfold
      · rw [he] at hfold
        cases hfold
        cases hok
      · exact hlines
    · rcases h.stores.fold_lines hbase o hlines with ⟨f, -, he⟩ | ⟨merged, r₁, -, he, -⟩
      · rw [he] at hfold
        cases hfold
      · rw [he] at hfold
        cases hfold
        rfl

end Followed

/-! ### Reading along other lines -/

/-- What reading reports if the lines of a tree do not begin the stored lines.  The first statement with
another line is named, with the line of the record that is stored for it; or all records are used up. -/
inductive Misread (stored lines : List Int32) : WalkError → Prop
  | stale {k : Nat} {line : Int32} (hbefore : lines.take k <+: stored) (hline : lines[k]? = some line)
      (hother : stored[k]? ≠ some line) :
      Misread stored lines (.staleRecord k line (stored[k]?.getD Record.unusedLine))
  | exhausted (hbefore : lines.take stored.length <+: stored) (hlonger : stored.length < lines.length)
      (hfull : stored.length = recordsPerChunk * chunksNeeded stored.length) :
      Misread stored lines (.cursorExhausted stored.length)

theorem Misread.not_begins {stored lines : List Int32} {e : WalkError} (h : Misread stored lines e) :
    ¬ lines <+: stored := by
  intro hbegins
  cases h with
  | @stale k line _ hline hother =>
    obtain ⟨hk, hget⟩ := List.getElem?_eq_some_iff.1 hline
    exact hother ((List.prefix_iff_getElem?.1 hbegins k hk).trans (congrArg some hget))
  | exhausted _ hlonger _ => exact absurd hbegins.length_le (not_le.2 hlonger)

namespace Reading

variable {proc : Procedure} {m : Numbering} {records : List Record}

/-- A statement of the numbered tree gets the record at its position if the lines agree. -/
theorem recordAt_of_build (hbuild : Numbering.build proc = .ok m) {k : Nat} {s : Statement}
    (hs : proc.body.preorder[k]? = some s) :
    recordAt ⟨m, proc.places, some records.toArray⟩ k s =
      match records[k]? with
      | none => .error (.cursorExhausted k)
      | some record =>
        if record.line ≠ s.line then .error (.staleRecord k s.line record.line) else .ok record := by
  unfold recordAt
  rw [Numbering.naturalId_of_build hbuild hs]
  cases hget : records[k]? with
  | none => simp [bind, Except.bind, Profile.next, hget]
  | some record =>
    by_cases hline : record.line = s.line <;>
      simp [bind, Except.bind, pure, Except.pure, Profile.next, hget, hline]

variable {stored : List Int32} {n : Nat}

/-- The line that is stored for a position of a profile which is filled up with unused records. -/
theorem line_getElem? (hrecords : records.map Record.line = stored ++ List.replicate n Record.unusedLine)
    (k : Nat) :
    records[k]?.map Record.line =
      if k < stored.length + n then some (stored[k]?.getD Record.unusedLine) else none := by
  rw [← List.getElem?_map, hrecords, List.getElem?_append]
  split_ifs with hk hlt hlt
  · rw [List.getElem?_eq_getElem hk, Option.getD_some]
  · omega
  · rw [List.getElem?_replicate, if_pos (by omega), List.getElem?_eq_none (not_lt.1 hk), Option.getD_none]
  · rw [List.getElem?_replicate, if_neg (by omega)]

/-- A statement gets its record exactly if its line is stored at its position. -/
theorem exists_recordAt_iff (hbuild : Numbering.build proc = .ok m)
    (hrecords : records.map Record.line = stored ++ List.replicate n Record.unusedLine)
    {k : Nat} {s : Statement} (hs : proc.body.preorder[k]? = some s) (hline : s.line ≠ Record.unusedLine) :
    (∃ record, recordAt ⟨m, proc.places, some records.toArray⟩ k s = .ok record) ↔
      stored[k]? = some s.line := by
  have hget := line_getElem? hrecords k
  rw [recordAt_of_build hbuild hs]
  cases hrecord : records[k]? with
  | none =>
    rw [hrecord, Option.map_none] at hget
    split_ifs at hget with hk
    rw [List.getElem?_eq_none (by omega)]
    simp
  | some record =>
    rw [hrecord, Option.map_some] at hget
    split_ifs at hget with hk
    rw [Option.some.injEq] at hget
    cases hstored : stored[k]? with
    | none =>
      rw [hstored, Option.getD_none] at hget
      simp [hget, hline.symm]
    | some line =>
      rw [hstored, Option.getD_some] at hget
      by_cases hsame : line = s.line <;> simp [hget, hsame]

/-- The statements before a position get their records exactly if their lines begin the stored ones. -/
theorem readableTo_iff (hbuild : Numbering.build proc = .ok m)
    (hrecords : records.map Record.line = stored ++ List.replicate n Record.unusedLine)
    (hlines : Record.unusedLine ∉ m.lines) {i : Nat} (hi : i ≤ proc.body.count) :
    ReadableTo ⟨m, proc.places, some records.toArray⟩ proc.body i ↔ m.lines.take i <+: stored := by
  have hlen := Numbering.length_lines_of_build hbuild
  have hget : ∀ k < i, ∃ s, proc.body.preorder[k]? = some s ∧ m.lines[k]? = some s.line ∧
      s.line ≠ Record.unusedLine := by
    intro k hk
    have hlt : k < proc.body.preorder.length := by rw [Statement.length_preorder]; omega
    have hline := Numbering.line_of_build hbuild (List.getElem?_eq_getElem hlt)
    exact ⟨_, List.getElem?_eq_getElem hlt, hline, fun he => hlines (he ▸ List.mem_of_getElem? hline)⟩
  rw [List.prefix_iff_getElem?]
  constructor
  · intro hto k hk
    rw [List.length_take] at hk
    obtain ⟨s, hs, hline, hused⟩ := hget k (by omega)
    obtain ⟨s', record, hs', hrecord⟩ := hto k (by omega)
    cases hs.symm.trans hs'
    rw [(exists_recordAt_iff hbuild hrecords hs hused).1 ⟨record, hrecord⟩, ← hline,
      ← List.getElem?_eq_getElem, List.getElem?_take, if_pos (by omega)]
  · intro hbegins k hk
    obtain ⟨s, hs, hline, hused⟩ := hget k hk
    have hstored := hbegins k (by rw [List.length_take]; omega)
    rw [← List.getElem?_eq_getElem, List.getElem?_take, if_pos hk, hline] at hstored
    obtain ⟨record, hrecord⟩ := (exists_recordAt_iff hbuild hrecords hs hused).2 hstored
    exact ⟨s, record, hs, hrecord⟩

/-- What a statement without its record says about the lines. -/
theorem misread_of_error (hbuild : Numbering.build proc = .ok m)
    (hrecords : records.map Record.line = stored ++ List.replicate n Record.unusedLine)
    (hfull : stored.length + n = recordsPerChunk * chunksNeeded stored.length)
    (hlines : Record.unusedLine ∉ m.lines) {k : Nat} {s : Statement} {e : WalkError}
    (hs : proc.body.preorder[k]? = some s)
    (hbefore : ReadableTo ⟨m, proc.places, some records.toArray⟩ proc.body k)
    (he : recordAt ⟨m, proc.places, some records.toArray⟩ k s = .error e) : Misread stored m.lines e := by
  have hk : k < proc.body.count := by
    rw [← Statement.length_preorder]
    exact (List.getElem?_eq_some_iff.1 hs).1
  have hline := Numbering.line_of_build hbuild hs
  have hlen := Numbering.length_lines_of_build hbuild
  rw [readableTo_iff hbuild hrecords hlines hk.le] at hbefore
  have hget := line_getElem? hrecords k
  rw [recordAt_of_build hbuild hs] at he
  cases hrecord : records[k]? with
  | none =>
    rw [hrecord, Option.map_none] at hget
    rw [hrecord] at he
    cases he
    split_ifs at hget with hlt
    -- as many statements have their records, so that no record fills the last page up
    have hle := hbefore.length_le
    rw [List.length_take] at hle
    obtain rfl : k = stored.length := by omega
    exact .exhausted hbefore (by omega) (by omega)
  | some record =>
    rw [hrecord, Option.map_some] at hget
    split_ifs at hget with hlt
    rw [Option.some.injEq] at hget
    rw [hrecord] at he
    dsimp only at he
    split_ifs at he with hother
    cases he
    rw [hget]
    refine .stale hbefore hline fun hstored => hother ?_
    rw [hget, hstored, Option.getD_some]

/-- Some IF of a tree has branches that were taken too often for a sum of them to fit. -/
def Overfull (proc : Procedure) (m : Numbering) (records : List Record) : Prop :=
  ∃ k s, proc.body.preorder[k]? = some s ∧ 2 ^ 64 ≤ branchExecs ⟨m, proc.places, some records.toArray⟩ k s

/-- Why the profile of a tree cannot be read. -/
inductive Unread (proc : Procedure) (m : Numbering) (records : List Record) (stored : List Int32) :
    Stop WalkError → Prop
  | error {e : WalkError} (h : Misread stored m.lines e) : Unread proc m records stored (.error e)
  | fault (h : Overfull proc m records) : Unread proc m records stored (.fault .addOverflow)

/-- A stored profile is passed as a whole exactly if the lines of the tree begin the stored ones. -/
theorem endsIn_items_lines (hbuild : Numbering.build proc = .ok m)
    (hrecords : records.map Record.line = stored ++ List.replicate n Record.unusedLine)
    (hfull : stored.length + n = recordsPerChunk * chunksNeeded stored.length)
    (hlines : Record.unusedLine ∉ m.lines) :
    EndsIn (fun _ => m.lines <+: stored) (Unread proc m records stored) (items proc m (some records)) := by
  refine (endsIn_items proc m (some records)).imp (fun _ hto => ?_) fun stop hstop => ?_
  · have hbegins := (readableTo_iff hbuild hrecords hlines le_rfl).1 hto
    rwa [← Numbering.length_lines_of_build hbuild, List.take_length] at hbegins
  · cases hstop with
    | error hs hbefore he => exact .error (misread_of_error hbuild hrecords hfull hlines hs hbefore he)
    | @fault k s hs hsum => exact .fault ⟨k, s, hs, hsum⟩

/-- Rows and coverage are made of what a walk passes, and stop where it stops. -/
theorem endsIn_resultRows {P : Prop} {bad : Stop WalkError → Prop} {stored? : Option (List Record)}
    (h : EndsIn (fun _ => P) bad (items proc m stored?)) :
    EndsIn (fun _ => P) bad (resultRows proc m stored?) := by
  rw [resultRows_eq]
  exact h.map fun _ hp => hp

theorem endsIn_collect {P : Prop} {bad : Stop WalkError → Prop} {stored? : Option (List Record)}
    (h : EndsIn (fun _ => P) bad (items proc m stored?)) :
    EndsIn (fun _ => P) bad (Coverage.collect proc m stored?) := by
  rw [Coverage.collect, Coverage.counts_eq, Functor.map_map]
  exact h.map fun _ hp => hp

end Reading

namespace Session

open Reading

variable {α : Type}

/-- A reading that gives something exactly if the lines of the tree begin the stored ones, and otherwise
reports the first difference; it gives no answer only if an IF is overfull. -/
def Judges (proc : Procedure) (m : Numbering) (records : List Record) (stored : List Int32)
    (x : Except Fault (Session × Access (Except WalkError α))) : Prop :=
  EndsIn (fun out => ((∃ a, out.2.answer = .ok a) ↔ m.lines <+: stored) ∧
      ∀ e, out.2.answer = .error e → Misread stored m.lines e)
    (fun f => f = .addOverflow ∧ Overfull proc m records) x

/-- A session reads along the numbering of a copy, whether it is cached or built. -/
theorem judges_readWith {copy : Handle → Procedure} {s : Session} (hcache : s.cache.Faithful copy)
    {handle : Handle} (hhandle : (copy handle).handle = handle) {m : Numbering}
    (hbuild : Numbering.build (copy handle) = .ok m) {o : Owner} {r : Region} {records : List Record}
    (hread : Access.answer <$> r.readRecords o m.identity = .ok (some records)) {stored : List Int32}
    {f : Numbering → Option (List Record) → Except (Stop WalkError) α}
    (hf : EndsIn (fun _ => m.lines <+: stored) (Unread (copy handle) m records stored) (f m (some records))) :
    Judges (copy handle) m records stored (s.readWith (copy handle) o r f) := by
  obtain ⟨-, hnumbering⟩ := hcache.buildOrGet hhandle
  obtain ⟨access, haccess, hanswer⟩ := map_eq_ok_iff.1 hread
  have hload : s.load (copy handle) o r = .ok ({ s with cache := (s.cache.buildOrGet (copy handle)).1 },
      access.map fun records => .ok (m, records)) := by
    unfold load
    dsimp only
    rw [hnumbering, hbuild]
    dsimp only
    rw [haccess]
    rfl
  unfold Judges readWith
  rw [hload]
  simp only [bind, Except.bind, Access.map, hanswer]
  cases hfm : f m (some records) with
  | ok a =>
    rw [hfm, endsIn_ok_iff] at hf
    exact .ok ⟨iff_of_true ⟨a, rfl⟩ hf, fun e he => by cases he⟩
  | error stop =>
    rw [hfm, endsIn_error_iff] at hf
    cases hf with
    | @error e h =>
      refine .ok ⟨iff_of_false ?_ h.not_begins, fun e' he => ?_⟩
      · rintro ⟨a, ha⟩
        cases ha
      · cases he
        exact h
    | fault h => exact .error ⟨rfl, h⟩

/-- **Reading and folding.**  After any requests of profiling to a new store, let the profile of an incarnation
have been folded from calls over the lines `stored`.  A copy of the incarnation with the lines `m.lines` is read
along this profile exactly if its lines begin the stored ones, and a call of it is folded exactly if they are
the stored ones.  Reading gives no answer only if an IF is overfull, and a fold only if a sum is too large. -/
theorem read_iff_prefix_fold_iff_eq (capacity unitCapacity : UInt64) {requests : List StoreRequest}
    (hrequests : ∀ q ∈ requests, q.Profiling) {r : Region} {lines : Identity → Option (List Int32)}
    (hrun : StoreRequest.followAll requests (Region.create capacity unitCapacity, fun _ => none) =
      .ok (r, lines))
    {copy : Handle → Procedure} {s : Session} (hcache : s.cache.Faithful copy) {handle : Handle}
    (hhandle : (copy handle).handle = handle) {m : Numbering}
    (hbuild : Numbering.build (copy handle) = .ok m) (hlines : Record.unusedLine ∉ m.lines)
    {stored : List Int32} (hstored : lines (copy handle).identity = some stored) (o : Owner) :
    ∃ records : List Record,
      Access.answer <$> r.readRecords o (copy handle).identity = .ok (some records) ∧
      Judges (copy handle) m records stored (s.result (copy handle) o r) ∧
      Judges (copy handle) m records stored (s.coverage (copy handle) o r) ∧
      (∀ c log now call, Call.Follows c (copy handle) log → c.records now = .ok (.ok call) →
        call.map Record.line = m.lines) ∧
      ∀ call : List Record, call.map Record.line = m.lines →
        EndsIn (fun access => access.answer = .ok () ↔ m.lines = stored) (MergeFaults records call)
          (r.fold o (copy handle).identity call) := by
  have hstart : Profiled (Region.create capacity unitCapacity) (fun _ => none) fun _ => none :=
    ⟨.create capacity unitCapacity, fun _ => rfl, by simp⟩
  obtain ⟨a, hprofiled⟩ := hstart.followAll hrequests hrun
  obtain ⟨base, records, n, hbase, hbaseLines, hbegins, hread, hrecords, hfull⟩ :=
    hprofiled.exists_records hstored o
  obtain ⟨-, hidentity, hm, -⟩ := Numbering.build_eq_ok hbuild
  have hitems := endsIn_items_lines hbuild hrecords hfull hlines
  refine ⟨records, hread, ?_, ?_, ?_, ?_⟩
  · exact judges_readWith hcache hhandle hbuild (hidentity ▸ hread) (endsIn_resultRows hitems)
  · exact judges_readWith hcache hhandle hbuild (hidentity ▸ hread) (endsIn_collect hitems)
  · intro c log now call hfollows hcall
    rw [(hfollows.records hcall).1, hm]
  · intro call hcall
    have hused : ∀ c ∈ call, c.line ≠ Record.unusedLine := by
      intro c hc he
      exact hlines (hcall ▸ he ▸ List.mem_map_of_mem hc)
    have hfold := hprofiled.endsIn_fold hbase o hused
    rw [hcall, hbaseLines] at hfold
    exact hfold.imp (fun _ h => h) fun f hf => hf.mono hbegins

/-- A block around one statement. -/
def shorterCopy (handle : Handle) : Procedure :=
  .compile handle ⟨1, 1, 1, 0⟩ "f" (.block ⟨none, 1⟩ none [.simple ⟨none, 2⟩ .assign none] [])

def shorterNumbering : Numbering where
  identity := ⟨1, 1, 1, 0⟩
  index := .lines (.ofList (shorterCopy 0).places (shorterCopy 0).body.preorder)
  nativeIds := [none, none]
  lines := [1, 2]
  fingerprints := [none, none]

/-- A call of a copy of the same incarnation that has one statement more. -/
def longerRequests : List StoreRequest :=
  [.recordCall .local ⟨1, 1⟩ 0 false,
    .fold .local ⟨1, 1, 1, 0⟩ [{ Record.ofLine 1 with execCount := 1 }, .ofLine 2, .ofLine 3]]

theorem read_iff_prefix_fold_iff_eq_longerRequests :
    Numbering.build (shorterCopy 0) = .ok shorterNumbering ∧
    ∃ r lines, StoreRequest.followAll longerRequests (Region.create 4 1, fun _ => none) = .ok (r, lines) ∧
      lines (shorterCopy 0).identity = some [1, 2, 3] ∧
      ∃ records : List Record,
        Judges (shorterCopy 0) shorterNumbering records [1, 2, 3]
          (Session.new.result (shorterCopy 0) .local r) ∧
        Judges (shorterCopy 0) shorterNumbering records [1, 2, 3]
          (Session.new.coverage (shorterCopy 0) .local r) ∧
        EndsIn (fun access => access.answer = .ok () ↔ shorterNumbering.lines = [1, 2, 3])
          (MergeFaults records [.ofLine 1, .ofLine 2])
          (r.fold .local (shorterCopy 0).identity [.ofLine 1, .ofLine 2]) := by
  have hbuild : Numbering.build (shorterCopy 0) = .ok shorterNumbering := rfl
  have hrequests : ∀ q ∈ longerRequests, q.Profiling := by decide
  obtain ⟨⟨r, lines⟩, hrun, hlines⟩ := map_eq_ok_iff.1 (by decide +kernel :
    (fun state => state.2 ⟨1, 1, 1, 0⟩) <$>
      StoreRequest.followAll longerRequests (Region.create 4 1, fun _ => none) = .ok (some [1, 2, 3]))
  have hcache : Session.new.cache.Faithful shorterCopy := NumberingCache.faithful_new shorterCopy
  obtain ⟨records, -, hresult, hcoverage, -, hfold⟩ := read_iff_prefix_fold_iff_eq 4 1 hrequests hrun
    hcache rfl hbuild (by decide) hlines .local
  exact ⟨hbuild, r, lines, hrun, hlines, records, hresult, hcoverage, hfold _ rfl⟩

/-- The profile of a longer copy: the rows and the coverage of the shorter copy are made from it, although a
call of the shorter copy is refused. -/
theorem longer_profile_read :
    ∃ r lines, StoreRequest.followAll longerRequests (Region.create 4 1, fun _ => none) = .ok (r, lines) ∧
      lines (shorterCopy 0).identity = some [1, 2, 3] ∧ shorterNumbering.lines = [1, 2] ∧
      (∃ out rows, Session.new.result (shorterCopy 0) .local r = .ok out ∧ out.2.answer = .ok rows ∧
        (rows.map fun row => (row.line, row.execCount)) = [(1, 1), (2, 0)]) ∧
      (∃ out report, Session.new.coverage (shorterCopy 0) .local r = .ok out ∧ out.2.answer = .ok report) ∧
      ∃ access, r.fold .local (shorterCopy 0).identity [.ofLine 1, .ofLine 2] = .ok access ∧
        access.answer = .error (.recordMismatch (-1) 3) := by
  have hrows : (do
      let state ← StoreRequest.followAll longerRequests (Region.create 4 1, fun _ => none)
      let out ← Session.new.result (shorterCopy 0) .local state.1
      return (List.map fun row : StatementRow => (row.line, row.execCount)) <$> out.2.answer) =
      .ok (.ok [(1, 1), (2, 0)]) := by decide +kernel
  have hcounts : (do
      let state ← StoreRequest.followAll longerRequests (Region.create 4 1, fun _ => none)
      let out ← Session.new.coverage (shorterCopy 0) .local state.1
      return (fun report : CoverageReport => report.counts.statements) <$> out.2.answer) =
      .ok (.ok 2) := by decide +kernel
  have hfolded : (do
      let state ← StoreRequest.followAll longerRequests (Region.create 4 1, fun _ => none)
      let access ← state.1.fold .local (shorterCopy 0).identity [.ofLine 1, .ofLine 2]
      return (state.2 (shorterCopy 0).identity, access.answer)) =
      .ok (some [1, 2, 3], .error (.recordMismatch (-1) 3)) := by decide +kernel
  obtain ⟨⟨r, lines⟩, hrun, hfolded⟩ := bind_eq_ok_iff.1 hfolded
  rw [hrun] at hrows hcounts
  obtain ⟨access, hfold, hfolded⟩ := bind_eq_ok_iff.1 hfolded
  obtain ⟨hlines, hrefused⟩ := Prod.mk.inj (Except.ok.inj hfolded)
  obtain ⟨_, hstate, hrows⟩ := bind_eq_ok_iff.1 hrows
  cases hstate
  obtain ⟨out, hresult, hrows⟩ := bind_eq_ok_iff.1 hrows
  obtain ⟨rows, hanswer, hrows⟩ := map_eq_ok_iff.1 (Except.ok.inj hrows)
  obtain ⟨_, hstate, hcounts⟩ := bind_eq_ok_iff.1 hcounts
  cases hstate
  obtain ⟨out', hcoverage, hcounts⟩ := bind_eq_ok_iff.1 hcounts
  obtain ⟨report, hanswer', -⟩ := map_eq_ok_iff.1 (Except.ok.inj hcounts)
  exact ⟨r, lines, hrun, hlines, rfl, ⟨out, rows, hresult, hanswer, hrows⟩,
    ⟨out', report, hcoverage, hanswer'⟩, access, hfold, hrefused⟩

end Session

end ProcProfile
