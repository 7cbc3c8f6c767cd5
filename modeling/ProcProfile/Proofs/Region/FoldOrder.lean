import Mathlib.Algebra.BigOperators.Group.List.Basic
import Mathlib.Algebra.Order.BigOperators.Group.Finset
import Mathlib.Tactic
import ProcProfile.Proofs.Region.Incarnations

/-!
# The order of folds

Calls of one incarnation that run over the same statements add up, so that the order in which calls are
folded does not show in the end.

* `Record.shape`, `Record.counters`: what a merge keeps of a record, and what it adds up;
* `FoldCall`, `foldAll`: calls to be folded one after another;
* `sumOver`, `maxOver`: the sum and the maximum of a counter over the calls of an incarnation;
* `Compatible`: calls that agree on their statements, for which there is room, and whose sums are words;
* `foldAll_perm`: every order of compatible calls leaves the same dump, with these sums and maxima in it,
  unless an incarnation has a chunk with the last number.
-/

namespace ProcProfile

/-! ### What a merge keeps and what it adds up -/

namespace Record

/-- A record without its counts. -/
def shape (r : Record) : Record :=
  { r with maxTime := 0, totalTime := 0, rows := 0, execCount := 0, errorCount := 0 }

/-- The counters that a merge adds up. -/
def counters : List (Record → Counter) := [totalTime, rows, execCount, errorCount]

theorem eq_of_shape_eq {a b : Record} (h : a.shape = b.shape)
    (hcounts : ∀ f ∈ counters, (f a).toNat = (f b).toNat) (hmax : a.maxTime.toNat = b.maxTime.toNat) :
    a = b := by
  simp only [counters, List.forall_mem_cons, UInt64.toNat_inj] at hcounts
  obtain ⟨htotal, hrows, hexec, herr, -⟩ := hcounts
  rw [UInt64.toNat_inj] at hmax
  cases a
  cases b
  simp_all [shape]

/-- Records of one shape whose sums are words can be merged. -/
theorem exists_merge {a b : Record} (h : a.shape = b.shape)
    (hsum : ∀ f ∈ counters, (f a).toNat + (f b).toNat < 2 ^ 64) :
    ∃ c, a.merge b = .ok c ∧ c.shape = a.shape ∧
      (∀ f ∈ counters, (f c).toNat = (f a).toNat + (f b).toNat) ∧
      c.maxTime.toNat = max a.maxTime.toNat b.maxTime.toNat := by
  simp only [counters, List.forall_mem_cons] at hsum
  obtain ⟨htotal, hrows, hexec, herr, -⟩ := hsum
  have hfingerprint : a.hasFingerprint = b.hasFingerprint := by
    show a.shape.hasFingerprint = b.shape.hasFingerprint
    rw [h]
  refine ⟨{ a with
      maxTime := max a.maxTime b.maxTime
      totalTime := a.totalTime + b.totalTime
      rows := a.rows + b.rows
      execCount := a.execCount + b.execCount
      errorCount := a.errorCount + b.errorCount }, ?_, rfl, ?_, ?_⟩
  · rw [merge_eq_ok_iff]
    refine ⟨Counter.toNat_add_of_lt htotal, Counter.toNat_add_of_lt hrows, Counter.toNat_add_of_lt hexec,
      Counter.toNat_add_of_lt herr, rfl, rfl, ?_, ?_, rfl, rfl⟩
    · simp [hfingerprint]
    · simp [hfingerprint]
  · simp only [counters, List.forall_mem_cons]
    exact ⟨Counter.toNat_add_of_lt htotal, Counter.toNat_add_of_lt hrows, Counter.toNat_add_of_lt hexec,
      Counter.toNat_add_of_lt herr, by simp⟩
  · exact Counter.toNat_max a.maxTime b.maxTime

end Record

/-- Profiles of one shape whose sums are words can be merged. -/
theorem exists_mergeRecords {stored call : List Record}
    (hshape : call.map Record.shape = stored.map Record.shape)
    (hsum : ∀ (j : Nat) a b, stored[j]? = some a → call[j]? = some b →
      ∀ f ∈ Record.counters, (f a).toNat + (f b).toNat < 2 ^ 64) :
    ∃ merged, mergeRecords stored call = .ok merged ∧ merged.map Record.shape = stored.map Record.shape ∧
      ∀ (j : Nat) c, merged[j]? = some c → ∃ a b, stored[j]? = some a ∧ call[j]? = some b ∧
        (∀ f ∈ Record.counters, (f c).toNat = (f a).toNat + (f b).toNat) ∧
        c.maxTime.toNat = max a.maxTime.toNat b.maxTime.toNat := by
  induction stored generalizing call with
  | nil => exact ⟨[], rfl, rfl, by simp⟩
  | cons a stored ih =>
    cases call with
    | nil => simp at hshape
    | cons b call =>
      rw [List.map_cons, List.map_cons, List.cons.injEq] at hshape
      obtain ⟨c, hc, hcshape, hcounts, hmax⟩ := Record.exists_merge hshape.1.symm (hsum 0 a b rfl rfl)
      obtain ⟨merged, hmerged, hmshape, hrest⟩ := ih hshape.2 fun j => hsum (j + 1)
      refine ⟨c :: merged, ?_, ?_, fun j c' hj => ?_⟩
      · rw [mergeRecords, hc, hmerged]
        rfl
      · rw [List.map_cons, List.map_cons, hcshape, hmshape]
      · cases j with
        | zero =>
          cases hj
          exact ⟨a, b, rfl, rfl, hcounts, hmax⟩
        | succ j => exact hrest j c' hj

/-! ### Calls of an incarnation -/

/-- A call to be folded. -/
structure FoldCall where
  owner : Owner
  id : Identity
  records : List Record

/-- A counter of a call at a position; 0 where the call has no record. -/
def FoldCall.count (f : Record → Counter) (j : Nat) (c : FoldCall) : Nat :=
  c.records[j]?.elim 0 fun x => (f x).toNat

/-- The sum of a counter over the calls of an incarnation, at a position. -/
def sumOver (f : Record → Counter) (calls : List FoldCall) (id : Identity) (j : Nat) : Nat :=
  ((calls.filter fun c => c.id = id).map (FoldCall.count f j)).sum

/-- The longest time of the calls of an incarnation, at a position. -/
def maxOver (calls : List FoldCall) (id : Identity) (j : Nat) : Nat :=
  ((calls.filter fun c => c.id = id).map (FoldCall.count Record.maxTime j)).foldr max 0

/-- Folds calls one after another; the first one that is refused stops it. -/
def FoldCall.foldAll : List FoldCall → Region → Except (Stop StoreError) Region
  | [], r => .ok r
  | c :: calls, r => do
    let folded ← Stop.ofFault (r.fold c.owner c.id c.records)
    let _ ← Stop.ofError folded.answer
    foldAll calls folded.region

section Sums

variable (f : Record → Counter) (c : FoldCall) {calls calls' : List FoldCall} {id : Identity} (j : Nat)

theorem sumOver_cons_self : sumOver f (c :: calls) c.id j = c.count f j + sumOver f calls c.id j := by
  simp [sumOver]

theorem sumOver_cons_of_ne (h : c.id ≠ id) : sumOver f (c :: calls) id j = sumOver f calls id j := by
  simp [sumOver, h]

theorem maxOver_cons_self :
    maxOver (c :: calls) c.id j = max (c.count Record.maxTime j) (maxOver calls c.id j) := by
  simp [maxOver]

theorem maxOver_cons_of_ne (h : c.id ≠ id) : maxOver (c :: calls) id j = maxOver calls id j := by
  simp [maxOver, h]

theorem sumOver_eq_zero (h : ∀ c ∈ calls, c.id ≠ id) : sumOver f calls id j = 0 := by
  rw [sumOver, List.filter_eq_nil_iff.2 (by simpa using h)]
  rfl

theorem maxOver_eq_zero (h : ∀ c ∈ calls, c.id ≠ id) : maxOver calls id j = 0 := by
  rw [maxOver, List.filter_eq_nil_iff.2 (by simpa using h)]
  rfl

theorem sumOver_perm (h : calls.Perm calls') : sumOver f calls id j = sumOver f calls' id j :=
  ((h.filter _).map _).sum_eq

theorem maxOver_perm (h : calls.Perm calls') : maxOver calls id j = maxOver calls' id j :=
  ((h.filter _).map _).foldr_eq 0

end Sums

/-- The counts of a record are those of the calls of an incarnation at a position. -/
structure Summed (calls : List FoldCall) (id : Identity) (j : Nat) (x : Record) : Prop where
  counters : ∀ f ∈ Record.counters, (f x).toNat = sumOver f calls id j
  max : x.maxTime.toNat = maxOver calls id j

/-- Calls that agree on the statements of each incarnation, for which there is room, and whose sums are
words. -/
structure Compatible (layout : Identity → List Record) (capacity : Nat) (calls : List FoldCall) : Prop where
  shape : ∀ c ∈ calls, c.records.map Record.shape = layout c.id
  room : ∑ id ∈ (calls.map FoldCall.id).toFinset, chunksNeeded (layout id).length ≤ capacity
  sums : ∀ f ∈ Record.counters, ∀ id j, sumOver f calls id j < 2 ^ 64

theorem Compatible.perm {layout : Identity → List Record} {capacity : Nat} {calls calls' : List FoldCall}
    (h : Compatible layout capacity calls) (hp : calls.Perm calls') : Compatible layout capacity calls' where
  shape c hc := h.shape c (hp.mem_iff.2 hc)
  room := by
    rw [← List.toFinset_eq_of_perm _ _ (hp.map FoldCall.id)]
    exact h.room
  sums f hf id j := by
    rw [← sumOver_perm f j hp]
    exact h.sums f hf id j

theorem Compatible.of_append {layout : Identity → List Record} {capacity : Nat}
    {calls calls' : List FoldCall} (h : Compatible layout capacity (calls ++ calls')) :
    Compatible layout capacity calls where
  shape c hc := h.shape c (List.mem_append_left _ hc)
  room := by
    refine le_trans (Finset.sum_le_sum_of_subset ?_) h.room
    rw [List.map_append, List.toFinset_append]
    exact Finset.subset_union_left
  sums f hf id j := by
    have hsum := h.sums f hf id j
    rw [sumOver, List.filter_append, List.map_append, List.sum_append] at hsum
    exact lt_of_le_of_lt (Nat.le_add_right _ _) hsum

/-! ### Folding compatible calls -/

namespace Region

/-- The store after compatible calls were folded: it holds their sums. -/
structure After (layout : Identity → List Record) (capacity : Nat) (calls : List FoldCall) (r : Region)
    (a : Profiles) : Prop where
  stores : Stores r a
  absent : ∀ id, a id = none ↔ ∀ c ∈ calls, c.id ≠ id
  shape : ∀ id records, a id = some records → records.map Record.shape = layout id
  summed : ∀ id records, a id = some records → ∀ (j : Nat) x, records[j]? = some x → Summed calls id j x
  free_add : r.free + ∑ id ∈ (calls.map FoldCall.id).toFinset, chunksNeeded (layout id).length = capacity

variable {layout : Identity → List Record} {capacity : Nat} {calls : List FoldCall} {c : FoldCall}
  {r : Region} {a : Profiles}

/-- A further call changes the profile of its incarnation only. -/
theorem After.update (h : After layout capacity calls r a) {r' : Region} {records : List Record}
    (hs : Stores r' (Function.update a c.id (some records)))
    (hshape : records.map Record.shape = layout c.id)
    (hsummed : ∀ (j : Nat) x, records[j]? = some x → Summed (c :: calls) c.id j x)
    (hfree : r'.free + ∑ id ∈ ((c :: calls).map FoldCall.id).toFinset, chunksNeeded (layout id).length =
      capacity) :
    After layout capacity (c :: calls) r' (Function.update a c.id (some records)) where
  stores := hs
  absent id := by
    rw [List.forall_mem_cons]
    by_cases hne : id = c.id
    · subst hne
      simp
    · rw [Function.update_of_ne hne, h.absent, and_iff_right (Ne.symm hne)]
  shape id records' hr := by
    by_cases hne : id = c.id
    · subst hne
      rw [Function.update_self, Option.some.injEq] at hr
      rw [← hr, hshape]
    · rw [Function.update_of_ne hne] at hr
      exact h.shape id records' hr
  summed id records' hr j x hx := by
    by_cases hne : id = c.id
    · subst hne
      rw [Function.update_self, Option.some.injEq] at hr
      exact hsummed j x (hr ▸ hx)
    · rw [Function.update_of_ne hne] at hr
      obtain ⟨hcounts, hmax⟩ := h.summed id records' hr j x hx
      exact ⟨fun f hf => by rw [sumOver_cons_of_ne f c j (Ne.symm hne), hcounts f hf],
        by rw [maxOver_cons_of_ne c j (Ne.symm hne), hmax]⟩
  free_add := hfree

/-- There is room for the first call of an incarnation. -/
theorem After.room (h : After layout capacity calls r a) (hc : Compatible layout capacity (c :: calls))
    (hid : a c.id = none) :
    ∑ id ∈ ((c :: calls).map FoldCall.id).toFinset, chunksNeeded (layout id).length =
        chunksNeeded c.records.length +
          ∑ id ∈ (calls.map FoldCall.id).toFinset, chunksNeeded (layout id).length ∧
      chunksNeeded c.records.length ≤ r.free := by
  have hnew : c.id ∉ (calls.map FoldCall.id).toFinset := by
    simpa using (h.absent c.id).1 hid
  have hlen : (layout c.id).length = c.records.length := by
    rw [← hc.shape c (by simp), List.length_map]
  have hroom := hc.room
  have hfree := h.free_add
  rw [List.map_cons, List.toFinset_cons, Finset.sum_insert hnew, hlen] at hroom ⊢
  exact ⟨rfl, by omega⟩

/-- The first call of an incarnation becomes its profile, if its chunks do not reach the last number. -/
theorem After.fold_new (h : After layout capacity calls r a) (hc : Compatible layout capacity (c :: calls))
    (hid : a c.id = none) (hfits : chunksNeeded c.records.length + 1 < 2 ^ 15) :
    ∃ r' a', r.fold c.owner c.id c.records = .ok ⟨r', [], .ok ()⟩ ∧
      After layout capacity (c :: calls) r' a' := by
  obtain ⟨hsum, hroom⟩ := h.room hc hid
  rcases h.stores.fold_new hid c.owner c.records with ⟨-, hlen, -⟩ | ⟨r', -, -, hlen, -⟩ |
    ⟨r', he, hs, hfree, -⟩
  · omega
  · omega
  · have hnone := (h.absent c.id).1 hid
    have hadd := h.free_add
    refine ⟨r', _, he, h.update hs (hc.shape c (by simp)) (fun j x hx => ⟨fun f _ => ?_, ?_⟩) (by omega)⟩
    · rw [sumOver_cons_self, sumOver_eq_zero f j hnone, FoldCall.count, hx]
      rfl
    · rw [maxOver_cons_self, maxOver_eq_zero j hnone, FoldCall.count, hx, Nat.max_zero]
      rfl

/-- A further call of an incarnation is merged. -/
theorem After.fold_merge (h : After layout capacity calls r a) (hc : Compatible layout capacity (c :: calls))
    {stored : List Record} (hid : a c.id = some stored) :
    ∃ r' a', r.fold c.owner c.id c.records = .ok ⟨r', [], .ok ()⟩ ∧
      After layout capacity (c :: calls) r' a' := by
  have hshape : c.records.map Record.shape = stored.map Record.shape := by
    rw [hc.shape c (by simp), h.shape c.id stored hid]
  have hlines : c.records.map Record.line = stored.map Record.line := by
    have := congrArg (List.map Record.line) hshape
    rwa [List.map_map, List.map_map] at this
  have hcount : ∀ {f : Record → Counter} {j : Nat} {b : Record}, c.records[j]? = some b →
      c.count f j = (f b).toNat := by
    intro f j b hb
    rw [FoldCall.count, hb]
    rfl
  obtain ⟨merged, hmerged, hmshape, hcounts⟩ := exists_mergeRecords hshape fun j x b hx hb f hf => by
    have hlt := hc.sums f hf c.id j
    rw [sumOver_cons_self, hcount hb, ← (h.summed c.id stored hid j x hx).counters f hf] at hlt
    omega
  rcases h.stores.fold_lines hid c.owner hlines with ⟨f, hf, -⟩ | ⟨merged', r', hmerged', he, hs, hrw⟩
  · rw [hmerged] at hf
    cases hf
  · obtain rfl : merged = merged' := Except.ok.inj (hmerged.symm.trans hmerged')
    refine ⟨r', _, he, h.update hs (hmshape.trans (h.shape c.id stored hid)) (fun j x hx => ?_) ?_⟩
    · obtain ⟨y, b, hy, hb, hadd, hmax⟩ := hcounts j x hx
      obtain ⟨hstored, hstoredMax⟩ := h.summed c.id stored hid j y hy
      refine ⟨fun f hf => ?_, ?_⟩
      · rw [hadd f hf, sumOver_cons_self, hcount hb, hstored f hf, Nat.add_comm]
      · rw [hmax, maxOver_cons_self, hcount hb, hstoredMax, Nat.max_comm]
    · have hmem : c.id ∈ (calls.map FoldCall.id).toFinset := by
        have hsome : ¬ ∀ d ∈ calls, d.id ≠ c.id := by
          rw [← h.absent, hid]
          simp
        simpa using hsome
      rw [hrw.free_eq, List.map_cons, List.toFinset_cons, Finset.insert_eq_of_mem hmem, h.free_add]

/-- One more call is folded, if its chunks do not reach the last number. -/
theorem After.fold (h : After layout capacity calls r a) (hc : Compatible layout capacity (c :: calls))
    (hfits : chunksNeeded c.records.length + 1 < 2 ^ 15) :
    ∃ r' a', r.fold c.owner c.id c.records = .ok ⟨r', [], .ok ()⟩ ∧
      After layout capacity (c :: calls) r' a' := by
  cases hid : a c.id with
  | none => exact h.fold_new hc hid hfits
  | some stored => exact h.fold_merge hc hid

/-- A call with a chunk of the last number faults, since the number after it is asked for. -/
theorem After.fold_fault (h : After layout capacity calls r a) (hc : Compatible layout capacity (c :: calls))
    (hlast : 2 ^ 15 ≤ chunksNeeded c.records.length + 1) :
    r.fold c.owner c.id c.records = .error .addOverflow := by
  have hid : a c.id = none := by
    -- a stored profile of this length would have such a chunk already
    rw [Option.eq_none_iff_forall_ne_some]
    intro stored hstored
    have hlen : stored.length = c.records.length := by
      simpa using congrArg List.length ((h.shape c.id stored hstored).trans (hc.shape c (by simp)).symm)
    have hbound := h.stores.bounded c.id
    rw [length_pagesFor hstored, hlen] at hbound
    omega
  obtain ⟨-, hroom⟩ := h.room hc hid
  rcases h.stores.fold_new hid c.owner c.records with ⟨he, -⟩ | ⟨r', -, -, hlen, -⟩ | ⟨r', -, -, -, hlen, -⟩
  · exact he
  · omega
  · omega

/-- Calls are folded one after another, if no chunks reach the last number. -/
theorem After.foldAll (h : After layout capacity calls r a) {order : List FoldCall}
    (hc : Compatible layout capacity (calls ++ order))
    (hfits : ∀ c ∈ order, chunksNeeded c.records.length + 1 < 2 ^ 15) :
    ∃ r' a' calls', FoldCall.foldAll order r = .ok r' ∧ After layout capacity calls' r' a' ∧
      calls'.Perm (calls ++ order) := by
  induction order generalizing calls r a with
  | nil => exact ⟨r, a, calls, rfl, h, by rw [List.append_nil]⟩
  | cons c order ih =>
    have hc' : Compatible layout capacity (c :: calls ++ order) := hc.perm List.perm_middle
    obtain ⟨r₁, a₁, he, h₁⟩ := h.fold hc'.of_append (hfits c (by simp))
    obtain ⟨r', a', calls', he', h', hp⟩ := ih h₁ hc' fun d hd => hfits d (by simp [hd])
    refine ⟨r', a', calls', ?_, h', hp.trans List.perm_middle.symm⟩
    rw [FoldCall.foldAll, he]
    exact he'

/-- And they fault if some chunk does. -/
theorem After.foldAll_fault (h : After layout capacity calls r a) {order : List FoldCall}
    (hc : Compatible layout capacity (calls ++ order))
    (hlast : ∃ c ∈ order, 2 ^ 15 ≤ chunksNeeded c.records.length + 1) :
    FoldCall.foldAll order r = .error (.fault .addOverflow) := by
  induction order generalizing calls r a with
  | nil => simp at hlast
  | cons c order ih =>
    have hc' : Compatible layout capacity (c :: calls ++ order) := hc.perm List.perm_middle
    by_cases hfits : chunksNeeded c.records.length + 1 < 2 ^ 15
    · obtain ⟨r₁, a₁, he, h₁⟩ := h.fold hc'.of_append hfits
      rw [FoldCall.foldAll, he]
      refine ih h₁ hc' ?_
      obtain ⟨d, hd, hlast⟩ := hlast
      rcases List.mem_cons.1 hd with rfl | hd
      · omega
      · exact ⟨d, hd, hlast⟩
    · rw [FoldCall.foldAll, h.fold_fault hc'.of_append (by omega)]
      rfl

theorem after_create (capacity unitCapacity : UInt64) :
    After layout capacity.toNat [] (create capacity unitCapacity) fun _ => none where
  stores := .create capacity unitCapacity
  absent := by simp
  shape := by simp
  summed := by simp
  free_add := by simp [free_create]

theorem After.perm {calls' : List FoldCall} (h : After layout capacity calls r a) (hp : calls.Perm calls') :
    After layout capacity calls' r a where
  stores := h.stores
  absent id := by
    rw [h.absent]
    exact forall_congr' fun c => by rw [hp.mem_iff]
  shape := h.shape
  summed id records hid j x hx := by
    obtain ⟨hcounts, hmax⟩ := h.summed id records hid j x hx
    exact ⟨fun f hf => by rw [hcounts f hf, sumOver_perm f j hp], by rw [hmax, maxOver_perm j hp]⟩
  free_add := by
    rw [← List.toFinset_eq_of_perm _ _ (hp.map FoldCall.id)]
    exact h.free_add

/-- The sums determine the profiles. -/
theorem After.profiles_eq {r' : Region} {a' : Profiles} (h : After layout capacity calls r a)
    (h' : After layout capacity calls r' a') : a' = a := by
  funext id
  cases hid : a id with
  | none => rw [h'.absent, ← h.absent, hid]
  | some records =>
    have hsome : a' id ≠ none := by
      rw [ne_eq, h'.absent, ← h.absent, hid]
      simp
    obtain ⟨records', hid'⟩ := Option.ne_none_iff_exists'.1 hsome
    have hshapes := (h'.shape id records' hid').trans (h.shape id records hid).symm
    have hlen : records'.length = records.length := by simpa using congrArg List.length hshapes
    rw [hid', Option.some.injEq]
    refine List.ext_getElem hlen fun j hj' hj => ?_
    obtain ⟨hcounts, hmax⟩ := h.summed id records hid j _ (List.getElem?_eq_getElem hj)
    obtain ⟨hcounts', hmax'⟩ := h'.summed id records' hid' j _ (List.getElem?_eq_getElem hj')
    refine Record.eq_of_shape_eq ?_ (fun f hf => ?_) ?_
    · have := congrArg (fun l : List Record => l[j]?) hshapes
      simpa [hj, hj'] using this
    · rw [hcounts f hf, hcounts' f hf]
    · rw [hmax, hmax']

/-! ### The dump after folds -/

theorem sumOver_of_length_le {f : Record → Counter} {id : Identity} {j : Nat}
    (hlen : ∀ c ∈ calls, c.id = id → c.records.length ≤ j) : sumOver f calls id j = 0 := by
  refine List.sum_eq_zero fun n hn => ?_
  obtain ⟨c, hc, rfl⟩ := List.mem_map.1 hn
  rw [List.mem_filter, decide_eq_true_eq] at hc
  rw [FoldCall.count, List.getElem?_eq_none (hlen c hc.1 hc.2), Option.elim_none]

theorem maxOver_of_length_le {id : Identity} {j : Nat}
    (hlen : ∀ c ∈ calls, c.id = id → c.records.length ≤ j) : maxOver calls id j = 0 := by
  induction calls with
  | nil => rfl
  | cons c calls ih =>
    rw [List.forall_mem_cons] at hlen
    by_cases hne : c.id = id
    · subst hne
      rw [maxOver_cons_self, ih hlen.2, FoldCall.count, List.getElem?_eq_none (hlen.1 rfl)]
      rfl
    · rw [maxOver_cons_of_ne c j hne, ih hlen.2]

/-- Past the records of every call there is nothing to add up. -/
theorem summed_unused {id : Identity} {j : Nat}
    (hlen : ∀ c ∈ calls, c.id = id → c.records.length ≤ j) : Summed calls id j Record.unused where
  counters f hf := by
    rw [sumOver_of_length_le hlen]
    simp only [Record.counters, List.mem_cons, List.not_mem_nil, or_false] at hf
    rcases hf with rfl | rfl | rfl | rfl <;> rfl
  max := by
    rw [maxOver_of_length_le hlen]
    rfl

theorem After.exists_profile (h : After layout capacity calls r a) (hmem : c ∈ calls) :
    ∃ records, a c.id = some records := by
  refine Option.ne_none_iff_exists'.1 fun hnone => ?_
  exact (h.absent c.id).1 hnone c hmem rfl

theorem After.exists_call (h : After layout capacity calls r a) {id : Identity} {records : List Record}
    (hid : a id = some records) : ∃ c ∈ calls, c.id = id := by
  by_contra hnot
  have hnone := (h.absent id).2 fun c hmem he => hnot ⟨c, hmem, he⟩
  rw [hid] at hnone
  cases hnone

/-- A profile is as long as the calls that were folded into it. -/
theorem After.length_eq (h : After layout capacity calls r a) (hc : Compatible layout capacity calls)
    {records : List Record} (hmem : c ∈ calls) (hid : a c.id = some records) :
    c.records.length = records.length := by
  simpa using congrArg List.length ((hc.shape c hmem).trans (h.shape c.id records hid).symm)

/-- What a record of a filled page of a profile holds. -/
theorem After.summed_page (h : After layout capacity calls r a) (hc : Compatible layout capacity calls)
    {id : Identity} {records page : List Record} (hid : a id = some records) {j k : Nat} {x : Record}
    (hpage : ((pagesOf records).map fillPage)[j]? = some page) (hx : page[k]? = some x) :
    Summed calls id (recordsPerChunk * j + k) x ∧
      x.shape = (layout id)[recordsPerChunk * j + k]?.getD Record.unused := by
  obtain ⟨-, rfl⟩ := getElem?_page hpage hx
  rw [← h.shape id records hid, List.getElem?_map]
  cases hrec : records[recordsPerChunk * j + k]? with
  | some x => exact ⟨h.summed id records hid _ x hrec, rfl⟩
  | none =>
    refine ⟨summed_unused fun c hmem he => ?_, rfl⟩
    subst he
    exact (h.length_eq hc hmem hid).trans_le (List.getElem?_eq_none_iff.1 hrec)

/-- A dump accounts for calls: it has the chunks of their incarnations and no other ones, and each record
holds the sums and the maximum over the calls of its incarnation at its position. -/
structure Accounts (layout : Identity → List Record) (calls : List FoldCall) (dump : List Chunk) : Prop where
  chunk : ∀ c ∈ calls, ∀ j < chunksNeeded c.records.length, ∃ chunk ∈ dump, chunk.key = .nth c.id (j + 1)
  record : ∀ chunk ∈ dump, ∃ j, chunk.key = .nth chunk.key.identity (j + 1) ∧
    (∃ c ∈ calls, c.id = chunk.key.identity ∧ j < chunksNeeded c.records.length) ∧
    chunk.records.length = recordsPerChunk ∧
    ∀ (k : Nat) x, chunk.records[k]? = some x →
      Summed calls chunk.key.identity (recordsPerChunk * j + k) x ∧
      x.shape = (layout chunk.key.identity)[recordsPerChunk * j + k]?.getD Record.unused

theorem After.accounts (h : After layout capacity calls r a)
    (hc : Compatible layout capacity calls) : Accounts layout calls r.dump where
  chunk c hmem j hj := by
    obtain ⟨records, hid⟩ := h.exists_profile hmem
    have hbound := h.stores.bounded c.id
    have hpages := length_pagesFor hid
    rw [← h.length_eq hc hmem hid] at hpages
    have hpage := h.stores.chain c.id j (by omega)
    rw [List.getElem?_eq_getElem (by omega), Nat.add_comm] at hpage
    exact ⟨⟨_, _⟩, (mem_dump h.stores.settled.sound).2 hpage, rfl⟩
  record chunk hchunk := by
    have hpage := (mem_dump h.stores.settled.sound).1 hchunk
    rw [h.stores.chunk?_eq] at hpage
    obtain ⟨j, -, hkey, hget⟩ := pageFor_eq_some hpage
    have hj := (List.getElem?_eq_some_iff.1 hget).1
    cases hid : a chunk.key.identity with
    | none =>
      rw [pagesFor_none hid] at hj
      simp at hj
    | some records =>
      rw [length_pagesFor hid] at hj
      rw [pagesFor_some hid] at hget
      obtain ⟨c, hmem, he⟩ := h.exists_call hid
      have hlen := h.length_eq hc hmem (he ▸ hid)
      exact ⟨j, hkey, ⟨c, hmem, he, hlen ▸ hj⟩, length_page hget, fun k x hx => h.summed_page hc hid hget hx⟩

/-- **The order of folds does not show.**  Compatible calls on an empty store are all folded, in every
order, and leave the same dump, which accounts for them.  Only a call that needs a chunk of the last number
stops with a fault, and it does so in every order. -/
theorem foldAll_perm (layout : Identity → List Record) (capacity unitCapacity : UInt64)
    (calls : List FoldCall) (hc : Compatible layout capacity.toNat calls) :
    ((∀ c ∈ calls, chunksNeeded c.records.length + 1 < 2 ^ 15) →
      ∃ dump, Accounts layout calls dump ∧ ∀ order, order.Perm calls →
        ∃ r, FoldCall.foldAll order (create capacity unitCapacity) = .ok r ∧ r.dump = dump) ∧
    ((∃ c ∈ calls, 2 ^ 15 ≤ chunksNeeded c.records.length + 1) → ∀ order, order.Perm calls →
      FoldCall.foldAll order (create capacity unitCapacity) = .error (.fault .addOverflow)) := by
  have hstart : After layout capacity.toNat [] (create capacity unitCapacity) fun _ => none :=
    after_create capacity unitCapacity
  constructor
  · intro hfits
    have hrun : ∀ order, order.Perm calls → ∃ r a,
        FoldCall.foldAll order (create capacity unitCapacity) = .ok r ∧
        After layout capacity.toNat calls r a := by
      intro order hp
      obtain ⟨r, a, calls', he, h, hp'⟩ := hstart.foldAll (hc.perm hp.symm)
        fun c hmem => hfits c (hp.mem_iff.1 hmem)
      exact ⟨r, a, he, h.perm (hp'.trans hp)⟩
    obtain ⟨r, a, -, h⟩ := hrun calls (.refl _)
    -- the sums determine the profiles, the profiles the chunks, and the chunks the dump
    refine ⟨r.dump, h.accounts hc, fun order hp => ?_⟩
    obtain ⟨r', a', he, h'⟩ := hrun order hp
    refine ⟨r', he, dump_congr h.stores.settled.sound h'.stores.settled.sound h.stores.filler_eq_zero ?_⟩
    rw [h'.stores.chunk?_eq, h.stores.chunk?_eq, h.profiles_eq h']
  · rintro ⟨c, hmem, hlast⟩ order hp
    exact hstart.foldAll_fault (hc.perm hp.symm) ⟨c, hp.mem_iff.2 hmem, hlast⟩

/-- Calls of small counts have small sums. -/
theorem sumOver_le {f : Record → Counter} {bound : Nat} (id : Identity) (j : Nat)
    (h : ∀ c ∈ calls, ∀ x ∈ c.records, (f x).toNat ≤ bound) :
    sumOver f calls id j ≤ calls.length * bound := by
  have hcount : ∀ n ∈ (calls.filter fun c => c.id = id).map (FoldCall.count f j), n ≤ bound := by
    intro n hn
    obtain ⟨c, hc, rfl⟩ := List.mem_map.1 hn
    rw [FoldCall.count]
    cases hx : c.records[j]? with
    | none => exact Nat.zero_le _
    | some x => exact h c (List.mem_of_mem_filter hc) x (List.mem_of_getElem? hx)
  calc sumOver f calls id j
      ≤ ((calls.filter fun c => c.id = id).map (FoldCall.count f j)).length * bound := by
        rw [sumOver, ← smul_eq_mul]
        exact List.sum_le_card_nsmul _ bound hcount
    _ ≤ calls.length * bound := by
        rw [List.length_map]
        exact Nat.mul_le_mul_right _ (List.length_filter_le _ _)

/-- Two calls of one incarnation and one of another. -/
def sampleCalls : List FoldCall :=
  [⟨.local, ⟨1, 1, 0, 0⟩, [{ Record.ofLine 3 with execCount := 2, maxTime := 5, totalTime := 6 }, .ofLine 4]⟩,
    ⟨.local, ⟨2, 1, 0, 0⟩, [{ Record.ofLine 3 with execCount := 1, errorCount := 1 }]⟩,
    ⟨.local, ⟨1, 1, 0, 0⟩, [{ Record.ofLine 3 with execCount := 1, maxTime := 7, totalTime := 7 },
      { Record.ofLine 4 with rows := 9 }]⟩]

def sampleLayout (id : Identity) : List Record :=
  if id.unitId = 1 then [.ofLine 3, .ofLine 4] else [.ofLine 3]

theorem foldAll_perm_sampleCalls :
    Compatible sampleLayout (2 : UInt64).toNat sampleCalls ∧
    (∀ c ∈ sampleCalls, chunksNeeded c.records.length + 1 < 2 ^ 15) ∧
    ∃ dump, Accounts sampleLayout sampleCalls dump ∧ ∀ order, order.Perm sampleCalls →
      ∃ r, FoldCall.foldAll order (create 2 1) = .ok r ∧ r.dump = dump := by
  have hc : Compatible sampleLayout (2 : UInt64).toNat sampleCalls := by
    refine ⟨by decide, by decide, fun f hf id j => ?_⟩
    have hsmall : ∀ f ∈ Record.counters, ∀ c ∈ sampleCalls, ∀ x ∈ c.records, (f x).toNat ≤ 9 := by decide
    exact (sumOver_le id j (hsmall f hf)).trans_lt (by decide)
  have hfits : ∀ c ∈ sampleCalls, chunksNeeded c.records.length + 1 < 2 ^ 15 := by decide
  exact ⟨hc, hfits, (foldAll_perm sampleLayout 2 1 sampleCalls hc).1 hfits⟩

/-- A call of `n` statements on one line. -/
def lineCall (n : Nat) : FoldCall :=
  ⟨.local, ⟨1, 1, 1, 0⟩, List.replicate n { Record.ofLine 1 with execCount := 1 }⟩

theorem compatible_lineCall {n : Nat} (hn : chunksNeeded n ≤ capacity) :
    Compatible (fun _ => List.replicate n (Record.ofLine 1)) capacity [lineCall n] where
  shape := by
    rw [List.forall_mem_singleton, lineCall, List.map_replicate]
    rfl
  room := by
    rw [List.map_singleton, List.toFinset_cons, List.toFinset_nil, insert_empty_eq, Finset.sum_singleton,
      List.length_replicate]
    exact hn
  sums f hf id j := by
    have hsmall : ∀ c ∈ [lineCall n], ∀ x ∈ c.records, (f x).toNat ≤ 1 := by
      simp only [List.forall_mem_singleton, lineCall, List.mem_replicate]
      rintro x ⟨-, rfl⟩
      revert f
      decide
    exact (sumOver_le id j hsmall).trans_lt (by norm_num)

theorem foldAll_lineCall {n : Nat} {capacity : UInt64} (hn : chunksNeeded n ≤ capacity.toNat)
    (hlast : 2 ^ 15 ≤ chunksNeeded n + 1) (unitCapacity : UInt64) :
    FoldCall.foldAll [lineCall n] (create capacity unitCapacity) = .error (.fault .addOverflow) := by
  refine (after_create capacity unitCapacity).foldAll_fault (compatible_lineCall hn)
    ⟨_, List.mem_singleton_self _, ?_⟩
  rwa [lineCall, List.length_replicate]

/-- A call of 982981 statements has a chunk of the last number, and faults although there is room for all
its chunks. -/
theorem foldAll_last_number :
    Compatible (fun _ => List.replicate 982981 (Record.ofLine 1)) (32768 : UInt64).toNat [lineCall 982981] ∧
    FoldCall.foldAll [lineCall 982981] (create 32768 10000) = .error (.fault .addOverflow) := by
  have hneeded : chunksNeeded 982981 = 32767 := by norm_num [chunksNeeded, recordsPerChunk]
  have hroom : chunksNeeded 982981 ≤ (32768 : UInt64).toNat := hneeded.trans_le (by decide)
  exact ⟨compatible_lineCall hroom, foldAll_lineCall hroom (by rw [hneeded]; norm_num) 10000⟩

end Region

end ProcProfile
