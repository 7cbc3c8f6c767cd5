import Mathlib.Tactic
import ProcProfile.Proofs.Region.ChunkMap
import ProcProfile.Proofs.Region.Incarnations

/-!
# Which calls a stored profile takes

A call is merged into a stored profile exactly if it runs over the lines of the profile.  If it does not, the
two lists of lines alone decide what is answered: the pages are compared one after another, so that a list that
ends with a full chunk and is continued by the other one is told by the next chunk, and any other difference by
the two lines at the first place of difference.

* `Verdict`: what the lines of a profile and of a call decide;
* `Laid`: pages that hold the records of some lines, with unused records behind them;
* `endsIn_mergePage_lines`, `endsIn_mergedIn_laid`: the verdict on a page, and from it the verdict on all pages;
* `StoreOp.layOut`, `LaidOut`: folds and resets, with the lines of the call that began each profile;
* `LaidOut.layOut`, `LaidOut.layOutAll`: what one operation keeps, and any number of them;
* `fold_by_lines`: the answer to a call of a stored profile, after any folds and resets.
-/

namespace ProcProfile

/-! ### Two lists of lines -/

/-- A list of lines ends with a full chunk. -/
def FillsChunks (lines : List Int32) : Prop := lines ≠ [] ∧ recordsPerChunk ∣ lines.length

/-- Position `k` is the first one at which two lists of lines differ. -/
def DifferAt (k : Nat) (stored call : List Int32) : Prop := call.take k = stored.take k ∧ call[k]? ≠ stored[k]?

/-- What is answered to a call over the lines `call` of a profile over the lines `stored`, both from the
beginning of chunk `m` on. -/
inductive Verdict (unitId : UInt32) (m : Nat) (stored call : List Int32) : Except StoreError Unit → Prop
  | accepted (h : call = stored) : Verdict unitId m stored call (.ok ())
  /-- The call ends with a full chunk, and the profile goes on. -/
  | unexpected {n : ChunkNumber} (hbegins : call <+: stored) (hne : call ≠ stored) (hfull : FillsChunks call)
      (hn : n.toInt = (m + call.length / recordsPerChunk : Nat)) :
      Verdict unitId m stored call (.error (.unexpectedChunk unitId n))
  /-- The profile ends with a full chunk, and the call goes on. -/
  | missing {n : ChunkNumber} (hbegins : stored <+: call) (hne : call ≠ stored) (hfull : FillsChunks stored)
      (hn : n.toInt = (m + stored.length / recordsPerChunk : Nat)) :
      Verdict unitId m stored call (.error (.missingChunk unitId n))
  /-- Behind the end of a list stands the reserved line. -/
  | mismatch {k : Nat} (hk : DifferAt k stored call) (hcall : ¬ (call <+: stored ∧ FillsChunks call))
      (hstored : ¬ (stored <+: call ∧ FillsChunks stored)) :
      Verdict unitId m stored call
        (.error (.recordMismatch (call[k]?.getD Record.unusedLine) (stored[k]?.getD Record.unusedLine)))

theorem Verdict.ok_iff {unitId : UInt32} {m : Nat} {stored call : List Int32} {answer : Except StoreError Unit}
    (h : Verdict unitId m stored call answer) : answer = .ok () ↔ call = stored := by
  cases h with
  | accepted h => exact iff_of_true rfl h
  | unexpected _ hne _ _ => exact iff_of_false (by simp) hne
  | missing _ hne _ _ => exact iff_of_false (by simp) hne
  | mismatch hk _ _ =>
    refine iff_of_false (by simp) ?_
    rintro rfl
    exact hk.2 rfl

theorem fillsChunks_append {front lines : List Int32} (hfront : front.length = recordsPerChunk)
    (hlines : lines ≠ []) : FillsChunks (front ++ lines) ↔ FillsChunks lines := by
  unfold FillsChunks
  rw [List.length_append, hfront, Nat.dvd_add_right dvd_rfl]
  simp [hlines]

/-- What two lists have in common in a first chunk decides nothing, if both go on behind it. -/
theorem Verdict.append {unitId : UInt32} {m : Nat} {front stored call : List Int32}
    {answer : Except StoreError Unit} (h : Verdict unitId (m + 1) stored call answer)
    (hfront : front.length = recordsPerChunk) (hstored : stored ≠ []) (hcall : call ≠ []) :
    Verdict unitId m (front ++ stored) (front ++ call) answer := by
  have hnumber : ∀ lines : List Int32, m + (front ++ lines).length / recordsPerChunk =
      m + 1 + lines.length / recordsPerChunk := by
    intro lines
    rw [List.length_append, hfront, Nat.add_div_left _ (by decide)]
    omega
  have hne : front ++ call = front ++ stored ↔ call = stored := List.append_right_inj front
  cases h with
  | accepted h => exact .accepted (hne.2 h)
  | unexpected hbegins hdiff hfull hn =>
    exact .unexpected ((List.prefix_append_right_inj front).2 hbegins) (mt hne.1 hdiff)
      ((fillsChunks_append hfront hcall).2 hfull) (by rw [hnumber, hn])
  | missing hbegins hdiff hfull hn =>
    exact .missing ((List.prefix_append_right_inj front).2 hbegins) (mt hne.1 hdiff)
      ((fillsChunks_append hfront hstored).2 hfull) (by rw [hnumber, hn])
  | @mismatch k hk hcall' hstored' =>
    have hget : ∀ lines : List Int32, (front ++ lines)[front.length + k]? = lines[k]? := fun lines => by
      rw [List.getElem?_append_right (by omega), Nat.add_sub_cancel_left]
    rw [← hget call, ← hget stored]
    refine .mismatch ⟨?_, ?_⟩ ?_ ?_
    · rw [List.take_length_add_append, List.take_length_add_append, hk.1]
    · rw [hget, hget]
      exact hk.2
    · rwa [List.prefix_append_right_inj, fillsChunks_append hfront hcall]
    · rwa [List.prefix_append_right_inj, fillsChunks_append hfront hstored]

/-- A difference in the first chunk is the verdict. -/
theorem Verdict.of_take {unitId : UInt32} {m k : Nat} {stored call : List Int32}
    (h : DifferAt k (stored.take recordsPerChunk) (call.take recordsPerChunk)) :
    Verdict unitId m stored call (.error (.recordMismatch
      ((call.take recordsPerChunk)[k]?.getD Record.unusedLine)
      ((stored.take recordsPerChunk)[k]?.getD Record.unusedLine))) := by
  obtain ⟨hbefore, hk⟩ := h
  have hlt : k < recordsPerChunk := by
    by_contra hge
    refine hk ?_
    rw [List.getElem?_take_eq_none (not_lt.1 hge), List.getElem?_take_eq_none (not_lt.1 hge)]
  rw [List.take_take, List.take_take, min_eq_left hlt.le] at hbefore
  rw [List.getElem?_take_of_lt hlt, List.getElem?_take_of_lt hlt] at hk ⊢
  -- a list that fills a chunk and begins the other one agrees with it in the whole chunk
  have hfull : ∀ {a b : List Int32}, a <+: b ∧ FillsChunks a → a[k]? = b[k]? := by
    rintro a b ⟨hbegins, hne, hdvd⟩
    have hle : recordsPerChunk ≤ a.length := Nat.le_of_dvd (List.length_pos_iff.2 hne) hdvd
    rw [List.getElem?_eq_getElem (by omega)]
    exact (List.prefix_iff_getElem?.1 hbegins k (by omega)).symm
  exact .mismatch ⟨hbefore, hk⟩ (fun h => hk (hfull h)) fun h => hk (hfull h).symm

/-! ### Pages of lines -/

/-- Full pages, as many as these lines need, hold records of the lines and unused ones behind them. -/
structure Laid (lines : List Int32) (pages : List (List Record)) : Prop where
  length_eq : pages.length = chunksNeeded lines.length
  full : ∀ page ∈ pages, page.length = recordsPerChunk
  lines_eq : pages.flatten.map Record.line =
    lines ++ List.replicate (recordsPerChunk * pages.length - lines.length) Record.unusedLine

theorem laid_pagesOf (records : List Record) :
    Laid (records.map Record.line) ((pagesOf records).map Region.fillPage) where
  length_eq := by rw [List.length_map, List.length_map, length_pagesOf]
  full page hpage := by
    obtain ⟨j, hj⟩ := List.mem_iff_getElem?.1 hpage
    exact length_page hj
  lines_eq := by
    rw [pagesOf, flatten_fillPages (length_le_chunksNeeded _), List.map_append, List.map_replicate,
      List.length_map, List.length_map, length_cutPages]
    rfl

namespace Laid

variable {lines : List Int32} {page : List Record} {pages pages' : List (List Record)}

/-- Only the lines of the pages matter. -/
theorem congr (h : Laid lines pages) (hlines : pages'.map (List.map Record.line) = pages.map (List.map Record.line)) :
    Laid lines pages' := by
  have hlen : pages'.length = pages.length := by simpa using congrArg List.length hlines
  refine ⟨hlen.trans h.length_eq, fun page hpage => ?_, ?_⟩
  · have hmem : page.map Record.line ∈ pages.map (List.map Record.line) := hlines ▸ List.mem_map_of_mem hpage
    obtain ⟨page', hpage', heq⟩ := List.mem_map.1 hmem
    rw [← h.full page' hpage']
    simpa using (congrArg List.length heq).symm
  · rw [List.map_flatten, hlines, ← List.map_flatten, h.lines_eq, hlen]

theorem head (h : Laid lines (page :: pages)) :
    page.map Record.line = lines.take recordsPerChunk ++
      List.replicate (recordsPerChunk - (lines.take recordsPerChunk).length) Record.unusedLine := by
  have hlen : (page.map Record.line).length = recordsPerChunk := by
    rw [List.length_map]
    exact h.full page (by simp)
  have hall := congrArg (List.take recordsPerChunk) h.lines_eq
  rw [List.flatten_cons, List.map_append, List.take_append_of_le_length hlen.ge, List.take_of_length_le hlen.le,
    List.take_append, List.take_replicate, List.length_cons] at hall
  rw [hall, List.length_take]
  congr 2
  rw [Nat.mul_succ]
  omega

theorem length_le (h : Laid lines [page]) : lines.length ≤ recordsPerChunk := by
  have hlen := h.length_eq
  have hle := length_le_chunksNeeded lines.length
  rw [← hlen] at hle
  simpa using hle

theorem tail {page' : List Record} (h : Laid lines (page :: page' :: pages)) :
    recordsPerChunk < lines.length ∧ Laid (lines.drop recordsPerChunk) (page' :: pages) := by
  have hlen := h.length_eq
  have hpage : page.length = recordsPerChunk := h.full page (by simp)
  have hlt : recordsPerChunk < lines.length := by
    unfold chunksNeeded at hlen
    unfold recordsPerChunk at hlen ⊢
    simp only [List.length_cons] at hlen
    omega
  refine ⟨hlt, ?_, fun p hp => h.full p (List.mem_cons_of_mem _ hp), ?_⟩
  · rw [List.length_drop]
    unfold chunksNeeded at hlen ⊢
    unfold recordsPerChunk at hlen ⊢
    simp only [List.length_cons] at hlen ⊢
    omega
  · have hall := congrArg (List.drop recordsPerChunk) h.lines_eq
    rw [List.flatten_cons, List.map_append, ← hpage, ← List.length_map Record.line, List.drop_left,
      List.length_map, hpage, List.drop_append_of_le_length hlt.le] at hall
    rw [hall, List.length_drop, List.length_cons (a := page)]
    congr 2
    rw [Nat.mul_succ]
    omega

end Laid

namespace Region

/-! ### The verdict on a page -/

/-- Why a page of a call is not merged into one over the lines `lines`: a sum overflows, or they differ. -/
def PageStops (lines : List Int32) (stored page : List Record) : Stop StoreError → Prop
  | .fault f => MergeFaults stored page f
  | .error e => ∃ k, DifferAt k lines (page.map Record.line) ∧
      e = .recordMismatch ((page.map Record.line)[k]?.getD Record.unusedLine) (lines[k]?.getD Record.unusedLine)

theorem PageStops.cons {lines : List Int32} {stored page : List Record} {stop : Stop StoreError}
    (h : PageStops lines stored page stop) {x y : Record} (hline : x.line = y.line) :
    PageStops (x.line :: lines) (x :: stored) (y :: page) stop := by
  cases stop with
  | fault f =>
    obtain ⟨j, a, b, ha, hb, hmerge⟩ := h
    exact ⟨j + 1, a, b, ha, hb, hmerge⟩
  | error e =>
    obtain ⟨k, ⟨hbefore, hk⟩, rfl⟩ := h
    refine ⟨k + 1, ⟨?_, hk⟩, rfl⟩
    rw [List.map_cons, List.take_succ_cons, List.take_succ_cons, hbefore, hline]

/-- A page over some lines, unused behind them, takes the calls over these lines; any other one is refused at the
first line that differs. -/
theorem endsIn_mergePage_lines {lines : List Int32} {stored page : List Record} {n : Nat}
    (hstored : stored.map Record.line = lines ++ List.replicate n Record.unusedLine)
    (hlines : Record.unusedLine ∉ lines) (hpage : Record.unusedLine ∉ page.map Record.line)
    (hlen : page.length ≤ stored.length) :
    EndsIn (fun _ => page.map Record.line = lines) (PageStops lines stored page) (mergePage stored page) := by
  induction stored generalizing lines page with
  | nil =>
    obtain rfl : page = [] := List.eq_nil_of_length_eq_zero (Nat.le_zero.1 hlen)
    obtain ⟨rfl, -⟩ := List.append_eq_nil_iff.1 hstored.symm
    exact .ok rfl
  | cons x stored ih =>
    -- the first line of the page, or the reserved one if the lines are none
    have hx : lines[0]?.getD Record.unusedLine = x.line := by
      cases lines with
      | nil =>
        cases n with
        | zero => cases hstored
        | succ n =>
          rw [List.nil_append, List.map_cons, List.replicate_succ, List.cons.injEq] at hstored
          exact hstored.1.symm
      | cons a lines =>
        rw [List.cons_append, List.map_cons, List.cons.injEq] at hstored
        exact hstored.1.symm
    cases page with
    | nil =>
      rw [mergePage]
      split_ifs with hused
      · refine .error ⟨0, ⟨rfl, ?_⟩, by rw [hx]; rfl⟩
        intro hnone
        rw [← hnone] at hx
        exact hused hx.symm
      · refine .ok ?_
        cases lines with
        | nil => rfl
        | cons a lines =>
          obtain rfl : a = x.line := hx
          exact absurd (not_not.1 hused ▸ List.mem_cons_self) hlines
    | cons y page =>
      have hy : y.line ≠ Record.unusedLine := fun hy => hpage (hy ▸ List.mem_cons_self)
      rw [mergePage]
      split_ifs with hne
      · refine .error ⟨0, ⟨rfl, fun hsame => hne ?_⟩, by rw [hx]; rfl⟩
        rw [← hx, ← hsame]
        rfl
      · have hline : x.line = y.line := not_not.1 hne
        obtain ⟨lines, rfl⟩ : ∃ rest, lines = x.line :: rest := by
          cases lines with
          | nil => exact absurd (hline.symm.trans hx.symm) hy
          | cons a lines => exact ⟨lines, by rw [show a = x.line from hx]⟩
        rw [List.map_cons, List.cons_append, List.cons.injEq] at hstored
        cases hmerge : x.merge y with
        | error f => exact .error ⟨0, x, y, rfl, rfl, hmerge⟩
        | ok merged =>
          have hrest := ih hstored.2 (fun h => hlines (List.mem_cons_of_mem _ h))
            (fun h => hpage (List.mem_cons_of_mem _ h)) (Nat.le_of_succ_le_succ hlen)
          refine (hrest.imp (fun _ h => h) fun stop hstop => hstop.cons hline).bind fun rest h => .ok ?_
          rw [List.map_cons, h, hline]

/-! ### The verdict on a profile -/

/-- Why a call is not merged into a profile whose records from chunk `m` on are `stored`, over the lines
`lines`. -/
def Declines (unitId : UInt32) (m : Nat) (lines : List Int32) (stored call : List Record) :
    Stop StoreError → Prop
  | .fault f => MergeFaults stored call f
  | .error e => Verdict unitId m lines (call.map Record.line) (.error e)

theorem MergeFaults.of_take {stored call : List Record} {f : Fault} {n : Nat}
    (h : MergeFaults stored (call.take n) f) : MergeFaults stored call f := by
  obtain ⟨j, x, y, hx, hy, hmerge⟩ := h
  rw [List.getElem?_take] at hy
  split_ifs at hy
  exact ⟨j, x, y, hx, hy, hmerge⟩

/-- What a page of a call meets is what the call meets. -/
theorem PageStops.declines {unitId : UInt32} {m : Nat} {lines : List Int32} {page rest call : List Record}
    {stop : Stop StoreError}
    (h : PageStops (lines.take recordsPerChunk) page (call.take recordsPerChunk) stop) :
    Declines unitId m lines (page ++ rest) call stop := by
  cases stop with
  | fault f => exact (MergeFaults.of_take h).mono (List.prefix_append page rest)
  | error e =>
    obtain ⟨k, hk, rfl⟩ := h
    rw [List.map_take] at hk ⊢
    exact .of_take hk

theorem Declines.append {unitId : UInt32} {m : Nat} {lines : List Int32} {page stored call : List Record}
    {stop : Stop StoreError}
    (h : Declines unitId (m + 1) (lines.drop recordsPerChunk) stored (call.drop recordsPerChunk) stop)
    (hpage : page.length = recordsPerChunk)
    (hsame : (call.take recordsPerChunk).map Record.line = lines.take recordsPerChunk)
    (hlines : recordsPerChunk < lines.length) (hcall : recordsPerChunk < call.length) :
    Declines unitId m lines (page ++ stored) call stop := by
  cases stop with
  | fault f =>
    refine .of_drop (n := recordsPerChunk) ?_
    rwa [← hpage, List.drop_left, hpage]
  | error e =>
    have hfront : (lines.take recordsPerChunk).length = recordsPerChunk := by
      rw [List.length_take, min_eq_left hlines.le]
    have hverdict := Verdict.append h hfront (by simpa using hlines) (by simpa using hcall)
    rwa [List.take_append_drop, ← hsame, List.map_take, List.map_drop, List.take_append_drop] at hverdict

theorem endsIn_mergePage_head {unitId : UInt32} {m : Nat} {lines : List Int32} {page call : List Record}
    {pages : List (List Record)} (hlaid : Laid lines (page :: pages)) (hlines : Record.unusedLine ∉ lines)
    (hcall : Record.unusedLine ∉ call.map Record.line) :
    EndsIn (fun _ => (call.map Record.line).take recordsPerChunk = lines.take recordsPerChunk)
      (Declines unitId m lines (page :: pages).flatten call) (mergePage page (call.take recordsPerChunk)) := by
  have hlen : page.length = recordsPerChunk := hlaid.full page (by simp)
  rw [← List.map_take]
  refine (endsIn_mergePage_lines hlaid.head (fun h => hlines (List.mem_of_mem_take h)) (fun h => hcall ?_)
    (by simp [hlen])).imp (fun _ h => h) fun stop hstop => hstop.declines
  rw [List.map_take] at h
  exact List.mem_of_mem_take h

theorem verdict_unexpected {unitId : UInt32} {id : Identity} {m : Nat} {lines call : List Int32}
    (hsame : call.take recordsPerChunk = lines.take recordsPerChunk) (hlines : recordsPerChunk < lines.length)
    (hcall : call.length ≤ recordsPerChunk) (hm : m + 1 < 2 ^ 15) :
    Verdict unitId m lines call (.error (.unexpectedChunk unitId (ChunkKey.nth id (m + 1)).number)) := by
  rw [List.take_of_length_le hcall] at hsame
  have hlen : call.length = recordsPerChunk := by rw [hsame, List.length_take, min_eq_left hlines.le]
  refine .unexpected (hsame ▸ List.take_prefix _ _) (fun h => ?_) ⟨fun h => ?_, hlen ▸ dvd_rfl⟩ ?_
  · rw [← h] at hlines
    omega
  · rw [h] at hlen
    cases hlen
  · rw [hlen, ChunkKey.toInt_number_nth id hm]
    rfl

theorem verdict_missing {unitId : UInt32} {id : Identity} {m : Nat} {lines call : List Int32}
    (hsame : call.take recordsPerChunk = lines.take recordsPerChunk) (hlines : lines.length ≤ recordsPerChunk)
    (hcall : recordsPerChunk < call.length) (hm : m + 1 < 2 ^ 15) :
    Verdict unitId m lines call (.error (.missingChunk unitId (ChunkKey.nth id (m + 1)).number)) := by
  rw [List.take_of_length_le hlines] at hsame
  have hlen : lines.length = recordsPerChunk := by rw [← hsame, List.length_take, min_eq_left hcall.le]
  refine .missing (hsame ▸ List.take_prefix _ _) (fun h => ?_) ⟨fun h => ?_, hlen ▸ dvd_rfl⟩ ?_
  · rw [h] at hcall
    omega
  · rw [h] at hlen
    cases hlen
  · rw [hlen, ChunkKey.toInt_number_nth id hm]
    rfl

/-- Chunks `m`, `m + 1`, … of an incarnation hold these pages in a map of chunks, there are no further ones, and the
number after the last one is still a number. -/
structure ChainIn (a : ChunkMap) (id : Identity) (m : Nat) (pages : List (List Record)) : Prop where
  chunk_eq : ∀ j, m + j < 2 ^ 15 → a (.nth id (m + j)) = pages[j]?
  bound : m + pages.length < 2 ^ 15

namespace ChainIn

variable {a : ChunkMap} {id : Identity} {m : Nat} {page : List Record} {pages : List (List Record)}

theorem tail (h : ChainIn a id m (page :: pages)) : ChainIn a id (m + 1) pages where
  chunk_eq j hj := by
    have hget := h.chunk_eq (j + 1) (by omega)
    rwa [show m + (j + 1) = m + 1 + j by omega, List.getElem?_cons_succ] at hget
  bound := by
    have hbound := h.bound
    rw [List.length_cons] at hbound
    omega

theorem lt (h : ChainIn a id m (page :: pages)) : m + 1 < 2 ^ 15 := lt_of_le_of_lt (by simp) h.bound

theorem next (h : ChainIn a id m (page :: pages)) : (ChunkKey.nth id m).next = .ok (.nth id (m + 1)) := by
  have hlt := h.lt
  rw [ChunkKey.next_nth id (by omega), if_pos hlt]

theorem after (h : ChainIn a id m (page :: pages)) : a (.nth id (m + 1)) = pages[0]? := h.chunk_eq 1 h.lt

end ChainIn

/-- The pages of a call are merged into those of a profile if the lines are the same, and otherwise the lines tell
why not. -/
theorem endsIn_mergedIn_laid {a : ChunkMap} {id : Identity} {m n : Nat} {lines : List Int32} {page : List Record}
    {pages : List (List Record)} {call : List Record} (hchain : ChainIn a id m (page :: pages))
    (hlaid : Laid lines (page :: pages)) (hlines : Record.unusedLine ∉ lines)
    (hcall : Record.unusedLine ∉ call.map Record.line) (hn : chunksNeeded call.length = n + 1) :
    EndsIn (fun _ => call.map Record.line = lines) (Declines id.unitId m lines (page :: pages).flatten call)
      (mergedIn a page (call.take recordsPerChunk) (cutPages n (call.drop recordsPerChunk)) (.nth id m)) := by
  induction n generalizing m lines page pages call with
  | zero =>
    have hshort : (call.map Record.line).length ≤ recordsPerChunk := by
      have hle := length_le_chunksNeeded call.length
      rwa [hn, Nat.mul_one, ← List.length_map Record.line] at hle
    rw [cutPages, mergedIn, hchain.next]
    refine (endsIn_mergePage_head hlaid hlines hcall).bind fun merged hsame => ?_
    dsimp only [Stop.ofFault_ok, bind, Except.bind]
    rw [hchain.after]
    cases pages with
    | nil =>
      rw [List.take_of_length_le hshort, List.take_of_length_le hlaid.length_le] at hsame
      exact .ok hsame
    | cons page' pages => exact .error (verdict_unexpected hsame hlaid.tail.1 hshort hchain.lt)
  | succ n ih =>
    have hlong : recordsPerChunk < call.length ∧ chunksNeeded (call.length - recordsPerChunk) = n + 1 := by
      unfold chunksNeeded recordsPerChunk at *
      omega
    have hlong' : recordsPerChunk < (call.map Record.line).length := by rw [List.length_map]; exact hlong.1
    rw [cutPages, mergedIn, hchain.next]
    refine (endsIn_mergePage_head hlaid hlines hcall).bind fun merged hsame => ?_
    dsimp only [Stop.ofFault_ok, bind, Except.bind]
    rw [hchain.after]
    cases pages with
    | nil => exact .error (verdict_missing hsame hlaid.length_le hlong' hchain.lt)
    | cons page' pages =>
      obtain ⟨hmore, htail⟩ := hlaid.tail
      have hrest := ih hchain.tail htail (fun h => hlines (List.mem_of_mem_drop h))
        (fun h => hcall (List.mem_of_mem_drop (List.map_drop ▸ h))) (by rw [List.length_drop]; exact hlong.2)
      refine EndsIn.bind (hrest.imp (fun _ h => h) fun stop hstop => ?_) fun rest h => .ok ?_
      · exact hstop.append (hlaid.full page (by simp)) (by rw [List.map_take, hsame]) hmore hlong.1
      · rw [← List.take_append_drop recordsPerChunk (call.map Record.line), hsame, ← List.map_drop, h,
          List.take_append_drop]

/-! ### What any call leaves of the lines -/

theorem map_line_mergePage {stored page merged : List Record} (h : mergePage stored page = .ok merged) :
    merged.map Record.line = stored.map Record.line := by
  induction stored generalizing page merged with
  | nil =>
    cases h
    rfl
  | cons x stored ih =>
    cases page with
    | nil =>
      rw [mergePage] at h
      split_ifs at h
      cases h
      rfl
    | cons y page =>
      rw [mergePage] at h
      split_ifs at h
      obtain ⟨z, hz, h⟩ := bind_eq_ok_iff.1 h
      obtain ⟨rest, hrest, h⟩ := bind_eq_ok_iff.1 h
      cases h
      rw [Stop.ofFault_eq_ok_iff, Record.merge_eq_ok_iff] at hz
      rw [List.map_cons, List.map_cons, ih hrest, hz.2.2.2.2.2.1]

/-- Whatever call is merged into a profile, the pages keep their lines. -/
theorem map_line_mergedIn {a : ChunkMap} {id : Identity} {m : Nat} {page call : List Record}
    {pages calls out : List (List Record)} (hchain : ChainIn a id m (page :: pages))
    (h : mergedIn a page call calls (.nth id m) = .ok out) :
    out.map (List.map Record.line) = (page :: pages).map (List.map Record.line) := by
  induction calls generalizing m page pages call out with
  | nil =>
    rw [mergedIn, hchain.next] at h
    obtain ⟨merged, hmerged, h⟩ := bind_eq_ok_iff.1 h
    dsimp only [Stop.ofFault_ok, bind, Except.bind] at h
    rw [hchain.after] at h
    cases pages with
    | nil =>
      cases h
      rw [List.map_singleton, List.map_singleton, map_line_mergePage hmerged]
    | cons page' pages => cases h
  | cons call' calls ih =>
    rw [mergedIn, hchain.next] at h
    obtain ⟨merged, hmerged, h⟩ := bind_eq_ok_iff.1 h
    dsimp only [Stop.ofFault_ok, bind, Except.bind] at h
    rw [hchain.after] at h
    cases pages with
    | nil => cases h
    | cons page' pages =>
      obtain ⟨rest, hrest, h⟩ := bind_eq_ok_iff.1 h
      cases h
      rw [List.map_cons, List.map_cons, ih hchain.tail hrest, map_line_mergePage hmerged]

theorem length_flatten_full {pages : List (List Record)} (hfull : ∀ page ∈ pages, page.length = recordsPerChunk) :
    pages.flatten.length = recordsPerChunk * pages.length := by
  rw [List.length_flatten, List.map_congr_left hfull, List.map_const', List.sum_replicate, smul_eq_mul, mul_comm]

/-- Full pages are those of the records in them. -/
theorem pagesOf_flatten {pages : List (List Record)} (hpages : pages ≠ [])
    (hfull : ∀ page ∈ pages, page.length = recordsPerChunk) : (pagesOf pages.flatten).map fillPage = pages := by
  have hcut : ∀ pages : List (List Record), (∀ page ∈ pages, page.length = recordsPerChunk) →
      (cutPages pages.length pages.flatten).map fillPage = pages := by
    intro pages hfull
    induction pages with
    | nil => rfl
    | cons page pages ih =>
      have hpage : page.length = recordsPerChunk := hfull page (by simp)
      rw [List.length_cons, cutPages, List.flatten_cons, ← hpage, List.take_left, List.drop_left, List.map_cons,
        ih fun p hp => hfull p (List.mem_cons_of_mem _ hp), fillPage, hpage, Nat.sub_self, List.replicate_zero,
        List.append_nil]
  have hneeded : chunksNeeded pages.flatten.length = pages.length := by
    have hpos := List.length_pos_iff.2 hpages
    rw [length_flatten_full hfull]
    unfold chunksNeeded recordsPerChunk
    omega
  rw [pagesOf, hneeded, hcut pages hfull]

namespace Stores

variable {r : Region} {a : Profiles} {id : Identity}

theorem chainIn (h : Stores r a) (id : Identity) : ChainIn r.chunk? id 1 (pagesFor a id) where
  chunk_eq := h.chain id
  bound := by
    rw [Nat.add_comm]
    exact h.bounded id

/-- The pages of a stored profile begin with chunk 1. -/
theorem exists_first (h : Stores r a) {stored : List Record} (hid : a id = some stored) :
    ∃ page pages, pagesFor a id = page :: pages ∧ ChainIn r.chunk? id 1 (page :: pages) ∧
      r.chunk? (.first id) = some page := by
  obtain ⟨page, pages, hpages⟩ := List.exists_cons_of_ne_nil (pagesFor_ne_nil hid)
  have hchain := h.chainIn id
  rw [hpages] at hchain
  exact ⟨page, pages, hpages, hchain, hchain.chunk_eq 0 (by norm_num)⟩

/-- The answer to a call of a stored profile, by the lines of both. -/
theorem fold_laid (h : Stores r a) {stored : List Record} (hid : a id = some stored) {lines : List Int32}
    (hlaid : Laid lines (pagesFor a id)) (hlines : Record.unusedLine ∉ lines) (o : Owner) {call : List Record}
    (hcall : Record.unusedLine ∉ call.map Record.line) :
    EndsIn (fun access => Verdict id.unitId 1 lines (call.map Record.line) access.answer)
      (MergeFaults (pagesFor a id).flatten call) (r.fold o id call) := by
  obtain ⟨page, pages, hpages, hchain, hfirst⟩ := h.exists_first hid
  rw [hpages] at hlaid ⊢
  have hn : chunksNeeded call.length = chunksNeeded call.length - 1 + 1 :=
    (Nat.succ_pred_eq_of_pos (chunksNeeded_pos _)).symm
  have hends := endsIn_mergedIn_laid hchain hlaid hlines hcall hn
  obtain ⟨hok, herror, hfault⟩ := fold_stored h.settled hfirst o call
  unfold mergedProfile at hok herror hfault
  cases hmerged : mergedIn r.chunk? page (call.take recordsPerChunk)
      (cutPages (chunksNeeded call.length - 1) (call.drop recordsPerChunk)) (.nth id 1) with
  | ok merged =>
    rw [hmerged, endsIn_ok_iff] at hends
    obtain ⟨r', hfold, -⟩ := hok merged hmerged
    rw [hfold]
    exact .ok (.accepted hends)
  | error stop =>
    rw [hmerged, endsIn_error_iff] at hends
    cases stop with
    | error e =>
      obtain ⟨r', hfold, -⟩ := herror e hmerged
      rw [hfold]
      exact .ok hends
    | fault f =>
      rw [hfault f hmerged]
      exact .error hends

/-- A call of a stored profile, whatever its lines, is refused and changes nothing, or it is merged into the pages and
they keep their lines. -/
theorem fold_any (h : Stores r a) {stored : List Record} (hid : a id = some stored) {lines : List Int32}
    (hlaid : Laid lines (pagesFor a id)) {o : Owner} {call : List Record}
    {access : Access (Except StoreError Unit)} (hrun : r.fold o id call = .ok access) :
    (∃ e, access.answer = .error e ∧ Same r access.region) ∨
    access.answer = .ok () ∧ ∃ merged, Stores access.region (Function.update a id (some merged)) ∧
      Laid lines (pagesFor (Function.update a id (some merged)) id) := by
  obtain ⟨page, pages, hpages, hchain, hfirst⟩ := h.exists_first hid
  obtain ⟨hok, herror, hfault⟩ := fold_stored h.settled hfirst o call
  cases hmerged : mergedProfile r.chunk? id page call with
  | error stop =>
    cases stop with
    | error e =>
      obtain ⟨r', hfold, hsame⟩ := herror e hmerged
      rw [hfold] at hrun
      cases hrun
      exact .inl ⟨e, rfl, hsame⟩
    | fault f =>
      rw [hfault f hmerged] at hrun
      cases hrun
  | ok out =>
    obtain ⟨r', hfold, hrw, hview⟩ := hok out hmerged
    rw [hfold] at hrun
    cases hrun
    have hout : Laid lines out := hlaid.congr (hpages ▸ map_line_mergedIn hchain hmerged)
    have hlen : out.length = (pagesFor a id).length := hout.length_eq.trans hlaid.length_eq.symm
    have hflat : (pagesOf out.flatten).map fillPage = out :=
      pagesOf_flatten (by rw [← List.length_pos_iff, hout.length_eq]; exact chunksNeeded_pos _) hout.full
    have hneeded : chunksNeeded out.flatten.length = out.length := by
      rw [← length_pagesOf, ← List.length_map fillPage, hflat]
    have hbound := h.bounded id
    refine .inr ⟨rfl, out.flatten, ⟨hrw.settled h.settled, ?_, h.bounded_update (by rw [hneeded, hlen]; exact hbound)⟩,
      ?_⟩
    · rw [hview, h.chunk?_eq, ← putPages_pageFor (by omega) (by rw [hneeded, hlen]), hflat]
    · rw [pagesFor_some (Function.update_self ..), hflat]
      exact hout

end Stores

end Region

/-! ### After any folds and resets -/

namespace StoreOp

/-- Runs an operation, and keeps for each incarnation the lines of the call that began its profile. -/
def layOut : StoreOp → Region × (Identity → Option (List Int32)) →
    Except Fault (Region × (Identity → Option (List Int32)))
  | .fold o id records, (r, lines) => do
    let folded ← r.fold o id records
    match folded.answer with
    | .ok () =>
      let begun := (lines id).getD (records.map Record.line)
      return (folded.region, Function.update lines id (some begun))
    | .error _ => return (folded.region, lines)
  | .reset scope, (r, lines) => do
    let (r, _) ← r.reset scope
    return (r, scope.clear lines)

/-- Runs operations one after another. -/
def layOutAll : List StoreOp → Region × (Identity → Option (List Int32)) →
    Except Fault (Region × (Identity → Option (List Int32)))
  | [], state => .ok state
  | op :: ops, state => do
    let state ← op.layOut state
    layOutAll ops state

end StoreOp

namespace Region

/-- A region stores these profiles, and the pages of each hold the lines with which it began. -/
structure LaidOut (r : Region) (lines : Identity → Option (List Int32)) (a : Profiles) : Prop where
  stores : Stores r a
  absent : ∀ id, a id = none → lines id = none
  laid : ∀ id records, a id = some records → ∃ ns, lines id = some ns ∧ Laid ns (pagesFor a id)

namespace LaidOut

variable {r r' : Region} {lines lines' : Identity → Option (List Int32)} {a : Profiles}

theorem update (h : LaidOut r lines a) {id : Identity} {records : List Record} {ns : List Int32}
    (hs : Stores r' (Function.update a id (some records)))
    (hlaid : Laid ns (pagesFor (Function.update a id (some records)) id)) :
    LaidOut r' (Function.update lines id (some ns)) (Function.update a id (some records)) where
  stores := hs
  absent id' hid' := by
    by_cases hid : id' = id
    · subst hid
      rw [Function.update_self] at hid'
      cases hid'
    · rw [Function.update_of_ne hid] at hid' ⊢
      exact h.absent id' hid'
  laid id' records' hid' := by
    by_cases hid : id' = id
    · subst hid
      exact ⟨ns, Function.update_self .., hlaid⟩
    · rw [Function.update_of_ne hid] at hid'
      obtain ⟨ns', hns', hlaid'⟩ := h.laid id' records' hid'
      refine ⟨ns', by rw [Function.update_of_ne hid, hns'], ?_⟩
      rwa [pagesFor, Function.update_of_ne hid]

/-- One operation keeps the lines of the pages. -/
theorem layOut (h : LaidOut r lines a) {op : StoreOp} (hrun : op.layOut (r, lines) = .ok (r', lines')) :
    ∃ a', LaidOut r' lines' a' := by
  cases op with
  | fold o id records =>
    obtain ⟨folded, hfold, hrun⟩ := bind_eq_ok_iff.1 hrun
    cases hid : a id with
    | none =>
      rw [h.absent id hid] at hrun
      rcases h.stores.fold_new hid o records with ⟨he, -⟩ | ⟨r₁, he, hsame, -⟩ | ⟨r₁, he, hs, -⟩
      all_goals rw [he] at hfold; cases hfold
      all_goals cases hrun
      · exact ⟨a, h.stores.of_same hsame, h.absent, h.laid⟩
      · refine ⟨_, h.update hs ?_⟩
        rw [pagesFor_some (Function.update_self ..)]
        exact laid_pagesOf records
    | some stored =>
      obtain ⟨ns, hns, hlaid⟩ := h.laid id stored hid
      rcases h.stores.fold_any hid hlaid hfold with ⟨e, he, hsame⟩ | ⟨he, merged, hs, hlaid'⟩
      · rw [he] at hrun
        cases hrun
        exact ⟨a, h.stores.of_same hsame, h.absent, h.laid⟩
      · rw [he, hns] at hrun
        cases hrun
        exact ⟨_, h.update hs hlaid'⟩
  | reset scope =>
    obtain ⟨r₁, n, he, hs, -⟩ := h.stores.reset scope
    obtain ⟨done, hdone, hrun⟩ := bind_eq_ok_iff.1 hrun
    rw [he] at hdone
    cases hdone
    cases hrun
    refine ⟨scope.clear a, hs, fun id hid => ?_, fun id records hid => ?_⟩
    · unfold ResetScope.clear at hid ⊢
      split_ifs at hid ⊢
      · rfl
      · exact h.absent id hid
    · unfold pagesFor
      unfold ResetScope.clear at hid ⊢
      split_ifs at hid ⊢
      exact h.laid id records hid

/-- So do any number of operations. -/
theorem layOutAll (h : LaidOut r lines a) {ops : List StoreOp}
    (hrun : StoreOp.layOutAll ops (r, lines) = .ok (r', lines')) : ∃ a', LaidOut r' lines' a' := by
  induction ops generalizing r lines a with
  | nil =>
    cases hrun
    exact ⟨a, h⟩
  | cons op ops ih =>
    obtain ⟨⟨r₁, lines₁⟩, hfirst, hrest⟩ := bind_eq_ok_iff.1 hrun
    obtain ⟨a₁, h₁⟩ := h.layOut hfirst
    exact ih h₁ hrest

end LaidOut

theorem laidOut_create (capacity unitCapacity : UInt64) :
    LaidOut (create capacity unitCapacity) (fun _ => none) fun _ => none :=
  ⟨.create capacity unitCapacity, fun _ _ => rfl, fun _ _ h => by cases h⟩

/-- **Only the stored lines are taken.**  After every sequence of folds and resets on an empty store, a profile
reads as the records of the lines with which it began and unused ones, and a call of it is accepted exactly if
it runs over these lines; otherwise the two lists of lines decide what is answered.  Only a sum of counters that
overflows leaves it without an answer. -/
theorem fold_by_lines (capacity unitCapacity : UInt64) (ops : List StoreOp) {r : Region}
    {lines : Identity → Option (List Int32)}
    (hrun : StoreOp.layOutAll ops (create capacity unitCapacity, fun _ => none) = .ok (r, lines))
    {id : Identity} {ns : List Int32} (hid : lines id = some ns) (hns : Record.unusedLine ∉ ns)
    (o : Owner) (call : List Record) (hcall : Record.unusedLine ∉ call.map Record.line) :
    ∃ stored, (∀ o, (r.readRecords o id).map Access.answer = .ok (some stored)) ∧
      stored.map Record.line = ns ++ List.replicate (stored.length - ns.length) Record.unusedLine ∧
      EndsIn
        (fun access => (access.answer = .ok () ↔ call.map Record.line = ns) ∧
          Verdict id.unitId 1 ns (call.map Record.line) access.answer)
        (MergeFaults stored call) (r.fold o id call) := by
  obtain ⟨a, h⟩ := (laidOut_create capacity unitCapacity).layOutAll hrun
  cases hstored : a id with
  | none =>
    rw [h.absent id hstored] at hid
    cases hid
  | some records =>
    obtain ⟨ns', hns', hlaid⟩ := h.laid id records hstored
    obtain rfl : ns = ns' := Option.some.inj (hid.symm.trans hns')
    refine ⟨(pagesFor a id).flatten, fun o => ?_, ?_, ?_⟩
    · rw [h.stores.readRecords_eq, hstored, Option.map_some]
    · rw [hlaid.lines_eq, length_flatten_full hlaid.full]
    · exact (h.stores.fold_laid hstored hlaid hns o hcall).imp (fun _ hv => ⟨hv.ok_iff, hv⟩) fun _ hf => hf

/-- Records of lines 0, 1, …, without counts. -/
def firstLines (n : Nat) : List Record := (List.range n).map fun k => .ofLine (Int32.ofNat k)

/-- A profile of two chunks begins, and a call with a record of the reserved line behind its end is merged into it.  A
call over other lines is refused, and a second profile goes again. -/
def layoutOps : List StoreOp :=
  [.fold .local ⟨1, 1, 0, 0⟩ (firstLines 31), .fold .local ⟨1, 1, 0, 0⟩ (firstLines 31 ++ [.unused]),
    .fold .local ⟨1, 1, 0, 0⟩ [.ofLine 5], .fold .local ⟨2, 1, 0, 0⟩ [.ofLine 7],
    .reset (.incarnation ⟨2, 1, 0, 0⟩)]

theorem fold_by_lines_layoutOps :
    ∃ r lines, StoreOp.layOutAll layoutOps (create 3 1, fun _ => none) = .ok (r, lines) ∧
      lines ⟨1, 1, 0, 0⟩ = some ((firstLines 31).map Record.line) ∧
      Record.unusedLine ∉ (firstLines 31).map Record.line ∧ Record.unusedLine ∉ (firstLines 30).map Record.line ∧
      ∃ stored, (∀ o, (r.readRecords o ⟨1, 1, 0, 0⟩).map Access.answer = .ok (some stored)) ∧
        stored.map Record.line = (firstLines 31).map Record.line ++
          List.replicate (stored.length - ((firstLines 31).map Record.line).length) Record.unusedLine ∧
        EndsIn
          (fun access => (access.answer = .ok () ↔
              (firstLines 30).map Record.line = (firstLines 31).map Record.line) ∧
            Verdict 1 1 ((firstLines 31).map Record.line) ((firstLines 30).map Record.line) access.answer)
          (MergeFaults stored (firstLines 30)) (r.fold .local ⟨1, 1, 0, 0⟩ (firstLines 30)) := by
  obtain ⟨⟨r, lines⟩, hrun, hlines⟩ := map_eq_ok_iff.1 (by decide +kernel :
    (fun state => state.2 ⟨1, 1, 0, 0⟩) <$> StoreOp.layOutAll layoutOps (create 3 1, fun _ => none) =
      .ok (some ((firstLines 31).map Record.line)))
  have hstored : Record.unusedLine ∉ (firstLines 31).map Record.line := by decide +kernel
  have hcall : Record.unusedLine ∉ (firstLines 30).map Record.line := by decide +kernel
  exact ⟨r, lines, hrun, hlines, hstored, hcall,
    fold_by_lines 3 1 layoutOps hrun hlines hstored .local (firstLines 30) hcall⟩

end Region

end ProcProfile
