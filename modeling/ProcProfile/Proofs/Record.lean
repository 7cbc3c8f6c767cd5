import Mathlib.Tactic
import ProcProfile.Proofs.Fault
import ProcProfile.Region.Profiles

/-!
# Chunk keys, pages and merged records

A profile of `n` records is stored in chunks 1, 2, …, `chunksNeeded n`.  Chunk numbers are words, and
`ChunkKey.nth` names a chunk by a natural number instead.

* `ChunkKey.nth`, `next_nth`: the chunk after chunk `m`, and the fault after the last number;
* `getElem?_cutPages`, `flatten_fillPages`: the pages of a profile, and the profile from its pages;
* `Record.merge_eq_ok_iff`: when two records can be merged, and what the merged record holds;
* `mergeRecords`: the merge of two profiles, record by record;
* `Region.mergePage_append`: merging a page of the same lines merges its records.
-/

namespace ProcProfile

/-! ### Chunk keys by number -/

namespace ChunkKey

/-- The key of chunk `m` of an incarnation. -/
def nth (id : Identity) (m : Nat) : ChunkKey := new id (Int16.ofNat m)

theorem first_eq_nth (id : Identity) : first id = nth id 1 := rfl

@[simp] theorem identity_new (id : Identity) (number : ChunkNumber) : (new id number).identity = id := rfl

@[simp] theorem identity_nth (id : Identity) (m : Nat) : (nth id m).identity = id := rfl

theorem toInt_number_nth (id : Identity) {m : Nat} (hm : m < 2 ^ 15) : (nth id m).number.toInt = m :=
  Int16.toInt_ofNat_of_lt hm

/-- The chunk after chunk `m`, if chunk numbers go so far. -/
theorem next_nth (id : Identity) {m : Nat} (hm : m < 2 ^ 15) :
    (nth id m).next = if m + 1 < 2 ^ 15 then .ok (nth id (m + 1)) else .error .addOverflow := by
  have hint : (nth id m).number.toInt = m := toInt_number_nth id hm
  unfold next ChunkNumber.next
  rw [hint]
  by_cases hlt : m + 1 < 2 ^ 15
  · rw [if_pos hlt, if_pos (by omega), Except.map_ok]
    simp [nth, new, Int16.ofNat_add]
  · rw [if_neg hlt, if_neg (by omega), Except.map_error]

theorem nth_inj {id id' : Identity} {m m' : Nat} (hm : m < 2 ^ 15) (hm' : m' < 2 ^ 15) :
    nth id m = nth id' m' ↔ id = id' ∧ m = m' := by
  constructor
  · intro h
    have hnum := congrArg (fun k => k.number.toInt) h
    simp only [toInt_number_nth _ hm, toInt_number_nth _ hm'] at hnum
    exact ⟨congrArg ChunkKey.identity h, by omega⟩
  · rintro ⟨rfl, rfl⟩
    rfl

theorem eq_nth {key : ChunkKey} (hfiller : key.filler = 0) (hpos : 0 ≤ key.number.toInt) :
    key = nth key.identity key.number.toInt.toNat := by
  have hnum : key.number = Int16.ofNat key.number.toInt.toNat := by
    rw [← Int16.toInt_inj, Int16.toInt_ofNat_of_lt]
    · omega
    · have := key.number.toInt_lt
      omega
  cases key
  simp only [nth, new, mk.injEq] at hfiller hnum ⊢
  exact ⟨trivial, hnum, hfiller⟩

end ChunkKey

/-! ### Pages -/

theorem length_le_chunksNeeded (n : Nat) : n ≤ recordsPerChunk * chunksNeeded n := by
  unfold chunksNeeded recordsPerChunk
  omega

theorem chunksNeeded_pos (n : Nat) : 0 < chunksNeeded n := by
  unfold chunksNeeded
  omega

@[simp] theorem length_cutPages (n : Nat) (records : List Record) : (cutPages n records).length = n := by
  induction n generalizing records with
  | zero => rfl
  | succ n ih => rw [cutPages, List.length_cons, ih]

theorem getElem?_cutPages (n : Nat) (records : List Record) (j : Nat) :
    (cutPages n records)[j]? =
      if j < n then some ((records.drop (recordsPerChunk * j)).take recordsPerChunk) else none := by
  induction n generalizing records j with
  | zero => rfl
  | succ n ih =>
    cases j with
    | zero => simp [cutPages]
    | succ j =>
      rw [cutPages, List.getElem?_cons_succ, ih, List.drop_drop]
      simp only [Nat.add_lt_add_iff_right, Nat.mul_succ, Nat.add_comm]

theorem length_pagesOf (records : List Record) : (pagesOf records).length = chunksNeeded records.length :=
  length_cutPages _ _

theorem length_fillPage {records : List Record} (h : records.length ≤ recordsPerChunk) :
    (Region.fillPage records).length = recordsPerChunk := by
  simp [Region.fillPage]
  omega

theorem getElem?_fillPage {records : List Record} (h : records.length ≤ recordsPerChunk) (k : Nat) :
    (Region.fillPage records)[k]? =
      if k < recordsPerChunk then some (records[k]?.getD Record.unused) else none := by
  rw [Region.fillPage, List.getElem?_append, List.getElem?_replicate]
  split_ifs with hk hk' hk' hk'
  · rw [List.getElem?_eq_getElem hk, Option.getD_some]
  · omega
  · rw [List.getElem?_eq_none (by omega), Option.getD_none]
  · omega
  · omega
  · rfl

theorem length_page {records page : List Record} {j : Nat}
    (hpage : ((pagesOf records).map Region.fillPage)[j]? = some page) : page.length = recordsPerChunk := by
  rw [List.getElem?_map] at hpage
  obtain ⟨stored, hstored, rfl⟩ := Option.map_eq_some_iff.1 hpage
  rw [pagesOf, getElem?_cutPages] at hstored
  split_ifs at hstored
  cases hstored
  exact length_fillPage (by simp)

/-- The records of page `j` are those of the profile from its place on. -/
theorem getElem?_page {records page : List Record} {j k : Nat} {x : Record}
    (hpage : ((pagesOf records).map Region.fillPage)[j]? = some page) (hx : page[k]? = some x) :
    k < recordsPerChunk ∧ x = records[recordsPerChunk * j + k]?.getD Record.unused := by
  rw [List.getElem?_map] at hpage
  obtain ⟨stored, hstored, rfl⟩ := Option.map_eq_some_iff.1 hpage
  rw [pagesOf, getElem?_cutPages] at hstored
  split_ifs at hstored with hj
  cases hstored
  rw [getElem?_fillPage (by simp)] at hx
  split_ifs at hx with hk
  refine ⟨hk, ?_⟩
  rw [Option.some.injEq, List.getElem?_take_of_lt hk, List.getElem?_drop] at hx
  exact hx.symm

/-- The filled pages of a profile are its records, followed by unused ones. -/
theorem flatten_fillPages {n : Nat} {records : List Record} (h : records.length ≤ recordsPerChunk * n) :
    ((cutPages n records).map Region.fillPage).flatten =
      records ++ List.replicate (recordsPerChunk * n - records.length) Record.unused := by
  induction n generalizing records with
  | zero =>
    have : records = [] := List.eq_nil_of_length_eq_zero (by omega)
    subst this
    rfl
  | succ n ih =>
    rw [cutPages, List.map_cons, List.flatten_cons, ih (by simp; rw [Nat.mul_succ] at h; omega)]
    rcases Nat.lt_or_ge records.length recordsPerChunk with hlt | hge
    · -- the profile ends in this page, and the later ones are unused as a whole
      rw [List.take_of_length_le hlt.le, List.drop_of_length_le hlt.le, Region.fillPage, List.nil_append,
        List.append_assoc, List.replicate_append_replicate, List.length_nil]
      congr 2
      rw [Nat.mul_succ]
      omega
    · have hfull : (records.take recordsPerChunk).length = recordsPerChunk := by simp [hge]
      rw [Region.fillPage, hfull, Nat.sub_self, List.replicate_zero, List.append_nil,
        ← List.append_assoc, List.take_append_drop, List.length_drop]
      congr 2
      rw [Nat.mul_succ]
      omega

/-! ### Merging -/

/-- Two records can be merged exactly if no sum of their counters passes the last value; sums are then
sums, and everything else but the longest time and a first fingerprint stays. -/
theorem Record.merge_eq_ok_iff {r other m : Record} :
    r.merge other = .ok m ↔
      m.totalTime.toNat = r.totalTime.toNat + other.totalTime.toNat ∧
      m.rows.toNat = r.rows.toNat + other.rows.toNat ∧
      m.execCount.toNat = r.execCount.toNat + other.execCount.toNat ∧
      m.errorCount.toNat = r.errorCount.toNat + other.errorCount.toNat ∧
      m.maxTime = max r.maxTime other.maxTime ∧ m.line = r.line ∧
      m.queryFingerprint =
        (if !r.hasFingerprint && other.hasFingerprint then other.queryFingerprint
        else r.queryFingerprint) ∧
      m.hasFingerprint = (r.hasFingerprint || other.hasFingerprint) ∧
      m.lineFiller = r.lineFiller ∧ m.markFiller = r.markFiller := by
  unfold merge
  simp only [bind_eq_ok_iff, Counter.add_eq_ok, pure, Except.pure, Except.ok.injEq]
  constructor
  · rintro ⟨total, htotal, rows, hrows, exec, hexec, err, herr, rfl⟩
    cases hr : r.hasFingerprint <;> cases ho : other.hasFingerprint <;> simp_all
  · rintro ⟨htotal, hrows, hexec, herr, hmax, hline, hquery, hhas, hfill, hmark⟩
    refine ⟨m.totalTime, htotal, m.rows, hrows, m.execCount, hexec, m.errorCount, herr, ?_⟩
    cases m
    cases hr : r.hasFingerprint <;> cases ho : other.hasFingerprint <;> simp_all

/-- Merges two profiles, record by record. -/
def mergeRecords : (stored call : List Record) → Except Fault (List Record)
  | stored :: rest, call :: calls => do
    let merged ← stored.merge call
    let rest ← mergeRecords rest calls
    return merged :: rest
  | _, _ => .ok []

theorem mergeRecords_eq_ok_iff {stored call merged : List Record} :
    mergeRecords stored call = .ok merged ↔
      merged.length = min stored.length call.length ∧
      ∀ (j : Nat) (a b : Record), stored[j]? = some a → call[j]? = some b →
        ∃ c, merged[j]? = some c ∧ a.merge b = .ok c := by
  induction stored generalizing call merged with
  | nil => simp [mergeRecords, eq_comm]
  | cons a stored ih =>
    cases call with
    | nil => simp [mergeRecords, eq_comm]
    | cons b call =>
      simp only [mergeRecords, bind_eq_ok_iff, pure, Except.pure, Except.ok.injEq]
      constructor
      · rintro ⟨c, hc, rest, hrest, rfl⟩
        obtain ⟨hlen, hmerge⟩ := ih.1 hrest
        refine ⟨by simp [hlen], fun j => ?_⟩
        cases j with
        | zero => simpa using hc
        | succ j => simpa using hmerge j
      · rintro ⟨hlen, hmerge⟩
        obtain ⟨c, hget, hc⟩ := hmerge 0 a b rfl rfl
        cases merged with
        | nil => simp at hget
        | cons c' rest =>
          cases Option.some.inj hget
          refine ⟨c, hc, rest, ih.2 ⟨by simpa using hlen, fun j x y hx hy => ?_⟩, rfl⟩
          simpa using hmerge (j + 1) x y (by simpa using hx) (by simpa using hy)

/-- Profiles may be cut at any place and merged piece by piece. -/
theorem mergeRecords_take_drop (n : Nat) (stored call : List Record) :
    mergeRecords stored call = (do
      let front ← mergeRecords (stored.take n) (call.take n)
      let back ← mergeRecords (stored.drop n) (call.drop n)
      return front ++ back) := by
  induction n generalizing stored call with
  | zero =>
    rw [List.take_zero, List.take_zero, List.drop_zero, List.drop_zero]
    cases mergeRecords stored call <;> rfl
  | succ n ih =>
    match stored, call with
    | [], call => simp [mergeRecords, bind, Except.bind]; rfl
    | a :: stored, [] => simp [mergeRecords, bind, Except.bind]; rfl
    | a :: stored, b :: call =>
      simp only [mergeRecords, List.take_succ_cons, List.drop_succ_cons]
      rw [ih stored call]
      simp only [bind_assoc, pure_bind, List.cons_append]

theorem length_mergeRecords {stored call merged : List Record} (hlen : call.length = stored.length)
    (h : mergeRecords stored call = .ok merged) : merged.length = stored.length := by
  rw [(mergeRecords_eq_ok_iff.1 h).1, hlen, min_self]

/-- Merging keeps what every merge of two records keeps. -/
theorem map_mergeRecords {β : Type} {f : Record → β}
    (hf : ∀ {a b c : Record}, a.merge b = .ok c → f c = f a) {stored call merged : List Record}
    (hlen : call.length = stored.length) (h : mergeRecords stored call = .ok merged) :
    merged.map f = stored.map f := by
  obtain ⟨-, hmerge⟩ := mergeRecords_eq_ok_iff.1 h
  have hmerged := length_mergeRecords hlen h
  refine List.ext_getElem (by simpa using hmerged) fun j hj hj' => ?_
  rw [List.length_map] at hj hj'
  obtain ⟨c, hc, hok⟩ := hmerge j stored[j] call[j] (List.getElem?_eq_getElem hj')
    (List.getElem?_eq_getElem (by omega))
  rw [List.getElem?_eq_getElem hj, Option.some.injEq] at hc
  rw [List.getElem_map, List.getElem_map, hc, hf hok]

theorem map_line_mergeRecords {stored call merged : List Record} (hlen : call.length = stored.length)
    (h : mergeRecords stored call = .ok merged) : merged.map Record.line = stored.map Record.line :=
  map_mergeRecords (fun hok => (Record.merge_eq_ok_iff.1 hok).2.2.2.2.2.1) hlen h

theorem mergeRecords_take {stored call merged : List Record} (n : Nat)
    (h : mergeRecords stored call = .ok merged) :
    mergeRecords (stored.take n) (call.take n) = .ok (merged.take n) := by
  obtain ⟨hlen, hmerge⟩ := mergeRecords_eq_ok_iff.1 h
  refine mergeRecords_eq_ok_iff.2 ⟨by simp only [List.length_take]; omega, fun j a b ha hb => ?_⟩
  rw [List.getElem?_take] at ha hb ⊢
  split_ifs at ha hb ⊢
  exact hmerge j a b ha hb

theorem mergeRecords_drop {stored call merged : List Record} (n : Nat)
    (h : mergeRecords stored call = .ok merged) :
    mergeRecords (stored.drop n) (call.drop n) = .ok (merged.drop n) := by
  obtain ⟨hlen, hmerge⟩ := mergeRecords_eq_ok_iff.1 h
  refine mergeRecords_eq_ok_iff.2 ⟨by simp only [List.length_drop]; omega, fun j a b ha hb => ?_⟩
  rw [List.getElem?_drop] at ha hb ⊢
  exact hmerge (n + j) a b ha hb

namespace Region

/-- A call over the lines of a page is merged into it record by record. -/
theorem mergePage_append {stored call : List Record} (n : Nat)
    (hlines : call.map Record.line = stored.map Record.line) :
    mergePage (stored ++ List.replicate n Record.unused) call =
      Stop.ofFault ((· ++ List.replicate n Record.unused) <$> mergeRecords stored call) := by
  induction stored generalizing call with
  | nil =>
    obtain rfl : call = [] := by simpa using hlines
    cases n with
    | zero => rfl
    | succ n => rfl
  | cons a stored ih =>
    cases call with
    | nil => simp at hlines
    | cons b call =>
      simp only [List.map_cons, List.cons.injEq] at hlines
      rw [List.cons_append, mergePage, if_neg (by simp [hlines.1]), ih hlines.2, mergeRecords]
      cases a.merge b with
      | error f => rfl
      | ok c => cases mergeRecords stored call <;> rfl

theorem mergePage_fillPage {stored call : List Record}
    (hlines : call.map Record.line = stored.map Record.line) :
    mergePage (fillPage stored) call = Stop.ofFault (fillPage <$> mergeRecords stored call) := by
  rw [fillPage, mergePage_append _ hlines]
  cases h : mergeRecords stored call with
  | error f => rfl
  | ok merged =>
    have hlen : call.length = stored.length := by simpa using congrArg List.length hlines
    have hmerged := length_mergeRecords hlen h
    simp [Functor.map, Except.map, fillPage, hmerged]

/-- A call that is merged into a page has the lines of the page, if no line is the reserved one. -/
theorem map_line_of_mergePage {stored call page : List Record} {n : Nat}
    (hstored : ∀ a ∈ stored, a.line ≠ Record.unusedLine) (hcall : ∀ b ∈ call, b.line ≠ Record.unusedLine)
    (hlen : call.length ≤ stored.length + n)
    (h : mergePage (stored ++ List.replicate n Record.unused) call = .ok page) :
    call.map Record.line = stored.map Record.line := by
  induction stored generalizing call page with
  | nil =>
    cases call with
    | nil => rfl
    | cons b call =>
      cases n with
      | zero => simp at hlen
      | succ n =>
        rw [List.nil_append, List.replicate_succ, mergePage] at h
        have hne : Record.unused.line ≠ b.line := Ne.symm (hcall b (by simp))
        rw [if_pos hne] at h
        cases h
  | cons a stored ih =>
    cases call with
    | nil =>
      rw [List.cons_append, mergePage, if_pos (hstored a (by simp))] at h
      cases h
    | cons b call =>
      rw [List.cons_append, mergePage] at h
      split_ifs at h with hne
      obtain ⟨c, -, h⟩ := bind_eq_ok_iff.1 h
      obtain ⟨rest, hrest, -⟩ := bind_eq_ok_iff.1 h
      rw [List.map_cons, List.map_cons, not_not.1 hne,
        ih (fun x hx => hstored x (by simp [hx])) (fun x hx => hcall x (by simp [hx]))
          (by simpa [Nat.succ_add] using hlen) hrest]

end Region

end ProcProfile
