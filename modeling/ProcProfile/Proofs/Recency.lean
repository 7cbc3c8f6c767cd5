import Mathlib.Data.List.Forall2
import Mathlib.Tactic
import ProcProfile.Proofs.Numbering

/-!
# What a cache keeps

A cache holds its entries in no order, and only ticks tell which of them was used last.  It keeps what a list
would keep in which every copy that is asked for moves to the front, and which is cut at the limit.  The list holds
copies as they were when they were numbered: a copy that was changed or moved since then still has its handle, and
is served with the numbering of what it was.

* `CacheRequest`, `NumberingCache.serve`: the requests to a cache, with their answers;
* `CacheRequest.remember`: such a list, and `CacheRequest.asNumbered`: the copy in it that is served for another;
* `NumberingCache.InOrder`: the entries of a cache from the one used last on, and what each step does to them;
* `NumberingCache.Remembers`: the entries of a cache are those of the copies in a list;
* `NumberingCache.ServedExactly`, `NumberingCache.served_by_recency`: after any requests, the next one is answered
  by the list, and the cache then keeps the entries of the list.
-/

namespace ProcProfile

/-- A request to a cache. -/
inductive CacheRequest where
  | numbering (p : Procedure)
  /-- Drops the numberings of one procedure, or all of them. -/
  | invalidate (unit : Option UnitKey)

/-- The answer to a request. -/
inductive CacheAnswer where
  | numbering (answer : Except (Stop WalkError) Numbering)
  | dropped (n : Nat)

/-- Whether a copy belongs to a procedure; every copy does if none is named. -/
def Procedure.isOf (p : Procedure) (unit : Option UnitKey) : Bool := unit.all (· == p.unitKey)

namespace CacheRequest

/-- The copy whose numbering is given for another: the one kept under its handle, as it was when it was numbered, or
the other one itself. -/
def asNumbered (recent : List Procedure) (p : Procedure) : Procedure :=
  (recent.find? fun q => q.handle == p.handle).getD p

/-- A copy is as it was when it was numbered, if it is one of those that were. -/
def Unchanged (recent : List Procedure) (p : Procedure) : Prop := ∀ q ∈ recent, q.handle = p.handle → q = p

/-- The copies to be kept after a request, if those of `recent` were kept before it.  The one that was asked for
last stands in front. -/
def remember (limit : Nat) (recent : List Procedure) : CacheRequest → List Procedure
  | numbering p =>
    if (Numbering.build (asNumbered recent p)).isOk then
      (asNumbered recent p :: recent.filter fun q => q.handle != p.handle).take limit
    else recent
  | invalidate unit => recent.filter fun q => !q.isOf unit

/-- The copies to be kept after requests one after another. -/
def rememberAll (limit : Nat) (requests : List CacheRequest) : List Procedure :=
  requests.foldl (remember limit) []

/-- The answer to a request, if the copies of `recent` were kept before it. -/
def answer (recent : List Procedure) : CacheRequest → CacheAnswer
  | numbering p => .numbering (Numbering.build (asNumbered recent p))
  | invalidate unit => .dropped (recent.countP fun q => q.isOf unit)

section Kept

variable {limit : Nat} {recent : List Procedure} {p q : Procedure}

theorem asNumbered_of_mem (hrecent : (recent.map Procedure.handle).Nodup) (hq : q ∈ recent)
    (hhandle : q.handle = p.handle) : asNumbered recent p = q := by
  rw [asNumbered]
  cases hfind : recent.find? fun q => q.handle == p.handle with
  | none => simpa [hhandle] using List.find?_eq_none.1 hfind q hq
  | some q' =>
    have hsame : q'.handle = p.handle := by simpa using List.find?_some hfind
    exact List.inj_on_of_nodup_map hrecent (List.mem_of_find?_eq_some hfind) hq (hsame.trans hhandle.symm)

theorem Unchanged.asNumbered_eq (h : Unchanged recent p) : asNumbered recent p = p := by
  rw [asNumbered]
  cases hfind : recent.find? fun q => q.handle == p.handle with
  | none => rfl
  | some q => exact h q (List.mem_of_find?_eq_some hfind) (by simpa using List.find?_some hfind)

theorem remember_ok {m : Numbering} (h : Numbering.build (asNumbered recent p) = .ok m) :
    remember limit recent (numbering p) =
      (asNumbered recent p :: recent.filter fun q => q.handle != p.handle).take limit := by
  rw [remember, h]
  rfl

theorem remember_error {stop : Stop WalkError} (h : Numbering.build (asNumbered recent p) = .error stop) :
    remember limit recent (numbering p) = recent := by
  rw [remember, h]
  rfl

end Kept

end CacheRequest

/-- A member of a list without repetitions, and the rest of the list. -/
theorem perm_cons_filter {α β : Type} [BEq β] [LawfulBEq β] {f : α → β} {l : List α} {a : α} (ha : a ∈ l)
    (hl : (l.map f).Nodup) : l.Perm (a :: l.filter fun x => f x != f a) := by
  obtain ⟨front, back, rfl⟩ := List.append_of_mem ha
  rw [List.map_append, List.map_cons, List.nodup_middle, List.nodup_cons, ← List.map_append] at hl
  have hrest : (front ++ back).filter (fun x => f x != f a) = front ++ back := by
    refine List.filter_eq_self.2 fun x hx => ?_
    have hne : f x ≠ f a := fun he => hl.1 (he ▸ List.mem_map_of_mem hx)
    simpa using hne
  rw [List.filter_append] at hrest
  rw [List.filter_append, List.filter_cons_of_neg (by simp), hrest]
  exact List.perm_middle

namespace NumberingCache

/-- Serves a request. -/
def serve (c : NumberingCache) : CacheRequest → NumberingCache × CacheAnswer
  | .numbering p => ((c.buildOrGet p).1, .numbering (c.buildOrGet p).2)
  | .invalidate unit => ((c.invalidate unit).1, .dropped (c.invalidate unit).2)

/-- The cache after requests one after another. -/
def serveAll (c : NumberingCache) (requests : List CacheRequest) : NumberingCache :=
  requests.foldl (fun c request => (c.serve request).1) c

theorem serveAll_concat (c : NumberingCache) (requests : List CacheRequest) (request : CacheRequest) :
    c.serveAll (requests ++ [request]) = ((c.serveAll requests).serve request).1 := by
  rw [serveAll, List.foldl_append]
  rfl

/-! ### The order of use -/

/-- The entries of a cache, the one used last in front. -/
structure InOrder (c : NumberingCache) (byUse : List CachedNumbering) : Prop where
  perm : byUse.Perm c.entries
  descending : byUse.Pairwise fun a b => b.lastUsed < a.lastUsed
  past : ∀ e ∈ byUse, e.lastUsed ≤ c.tick
  handles : (byUse.map CachedNumbering.handle).Nodup

namespace InOrder

variable {c : NumberingCache} {byUse : List CachedNumbering}

theorem sublist (h : c.InOrder byUse) {entries byUse' : List CachedNumbering} (hsub : byUse'.Sublist byUse)
    (hperm : byUse'.Perm entries) : InOrder { c with entries := entries } byUse' :=
  ⟨hperm, h.descending.sublist hsub, fun e he => h.past e (hsub.mem he),
    h.handles.sublist (hsub.map CachedNumbering.handle)⟩

/-- An entry that is used later than all others. -/
theorem cons (h : c.InOrder byUse) {tick : Nat} (htick : c.tick < tick) {e : CachedNumbering}
    (hused : e.lastUsed = tick) (hnew : e.handle ∉ byUse.map CachedNumbering.handle)
    {entries : List CachedNumbering} (hperm : (e :: byUse).Perm entries) :
    InOrder { c with tick := tick, entries := entries } (e :: byUse) := by
  refine ⟨hperm, List.pairwise_cons.2 ⟨fun e' he' => ?_, h.descending⟩, fun e' he' => ?_,
    List.nodup_cons.2 ⟨hnew, h.handles⟩⟩
  · have := h.past e' he'
    omega
  · rcases List.mem_cons.1 he' with rfl | he'
    · exact hused.le
    · have := h.past e' he'
      show e'.lastUsed ≤ tick
      omega

/-- Using an entry moves it to the front. -/
theorem touch (h : c.InOrder byUse) {e : CachedNumbering} (he : e ∈ byUse) {tick : Nat}
    (htick : c.tick < tick) :
    InOrder ({ c with tick := tick }.touch e.handle tick)
      ({ e with lastUsed := tick } :: byUse.filter fun x => x.handle != e.handle) := by
  have hothers : ∀ x ∈ byUse.filter (fun x => x.handle != e.handle), x.handle ≠ e.handle := by
    intro x hx
    simpa using (List.mem_filter.1 hx).2
  have hsplit := perm_cons_filter he h.handles
  have hmap : (byUse.filter fun x => x.handle != e.handle).map
      (fun x => if x.handle = e.handle then { x with lastUsed := tick } else x) =
        byUse.filter fun x => x.handle != e.handle := by
    refine (List.map_congr_left fun x hx => ?_).trans (List.map_id _)
    exact if_neg (hothers x hx)
  have hpermMap := (h.perm.symm.trans hsplit).map
    fun x => if x.handle = e.handle then { x with lastUsed := tick } else x
  rw [List.map_cons, if_pos rfl, hmap] at hpermMap
  refine (h.sublist List.filter_sublist (List.Perm.refl _)).cons htick rfl ?_ hpermMap.symm
  rw [List.mem_map]
  rintro ⟨x, hx, hhandle⟩
  exact hothers x hx hhandle

/-- Sorting by age lists the entry used last at the end. -/
theorem mergeSort_eq (h : c.InOrder byUse) :
    (c.entries.mergeSort fun a b => decide (a.lastUsed ≤ b.lastUsed)) = byUse.reverse := by
  have hsorted := List.pairwise_mergeSort
    (fun (a b d : CachedNumbering) hab hbd => by simp only [decide_eq_true_eq] at hab hbd ⊢; omega)
    (fun a b => by simp only [Bool.or_eq_true, decide_eq_true_eq]; omega : ∀ a b : CachedNumbering,
      (decide (a.lastUsed ≤ b.lastUsed) || decide (b.lastUsed ≤ a.lastUsed)) = true) c.entries
  have hperm := List.mergeSort_perm c.entries fun a b => decide (a.lastUsed ≤ b.lastUsed)
  -- no two entries were used at one tick
  have hticks : (byUse.map CachedNumbering.lastUsed).Nodup :=
    List.pairwise_map.2 (h.descending.imp fun {a b} hlt => hlt.ne')
  refine List.Perm.eq_of_pairwise (fun a b ha hb hab hba => ?_) hsorted
    (List.pairwise_reverse.2 (h.descending.imp fun {a b} hlt => by simpa using hlt.le))
    (hperm.trans (h.perm.symm.trans (List.reverse_perm byUse).symm))
  simp only [decide_eq_true_eq] at hab hba
  exact List.inj_on_of_nodup_map hticks (h.perm.mem_iff.2 (hperm.mem_iff.1 ha)) (List.mem_reverse.1 hb)
    (by omega)

/-- Evicting cuts the order at the limit. -/
theorem evict (h : c.InOrder byUse) : InOrder c.evict (byUse.take c.limit) := by
  have hlength := h.perm.length_eq
  have hoff : byUse.drop (byUse.length - (c.entries.length - c.limit)) = byUse.drop c.limit := by
    rcases Nat.le_total c.limit byUse.length with hle | hle
    · congr 1
      omega
    · rw [List.drop_of_length_le hle, List.drop_of_length_le (by omega)]
  have hapart : List.Disjoint ((byUse.take c.limit).map CachedNumbering.handle)
      ((byUse.drop c.limit).map CachedNumbering.handle) := by
    refine List.disjoint_of_nodup_append ?_
    rw [← List.map_append, List.take_append_drop]
    exact h.handles
  refine h.sublist (List.take_sublist c.limit byUse) ?_
  rw [h.mergeSort_eq, List.take_reverse, hoff, List.map_reverse]
  refine List.Perm.trans (List.Perm.of_eq ?_) (h.perm.filter _)
  -- what is cut off is exactly what the filter takes out
  conv_rhs => rw [← List.take_append_drop c.limit byUse, List.filter_append]
  rw [List.filter_eq_self.2, List.filter_eq_nil_iff.2, List.append_nil]
  · intro e he
    simpa using List.mem_map_of_mem (f := CachedNumbering.handle) he
  · intro e he
    have hkept := hapart (List.mem_map_of_mem he)
    simpa using hkept

end InOrder

/-! ### The entries of copies -/

/-- The entry of a copy. -/
structure IsEntryOf (e : CachedNumbering) (p : Procedure) : Prop where
  handle : e.handle = p.handle
  build : Numbering.build p = .ok e.numbering

/-- The entries of a cache are those of the copies in a list, from the one used last on. -/
structure Remembers (c : NumberingCache) (recent : List Procedure) : Prop where
  inOrder : ∃ byUse, c.InOrder byUse ∧ List.Forall₂ IsEntryOf byUse recent
  limited : recent.length ≤ c.limit

section Remembers

variable {c : NumberingCache} {recent : List Procedure} {byUse : List CachedNumbering}

theorem map_handle_of_forall₂ (h : List.Forall₂ IsEntryOf byUse recent) :
    byUse.map CachedNumbering.handle = recent.map Procedure.handle := by
  induction h with
  | nil => rfl
  | cons hhead _ ih => rw [List.map_cons, List.map_cons, hhead.handle, ih]

theorem exists_copy_of_mem (h : List.Forall₂ IsEntryOf byUse recent) {e : CachedNumbering} (he : e ∈ byUse) :
    ∃ p ∈ recent, IsEntryOf e p := by
  induction h with
  | nil => cases he
  | @cons e' p byUse recent hhead _ ih =>
    rcases List.mem_cons.1 he with rfl | he
    · exact ⟨p, by simp, hhead⟩
    · obtain ⟨q, hq, hentry⟩ := ih he
      exact ⟨q, by simp [hq], hentry⟩

theorem Remembers.handles_perm (h : c.Remembers recent) :
    (c.entries.map CachedNumbering.handle).Perm (recent.map Procedure.handle) := by
  obtain ⟨byUse, horder, hcopies⟩ := h.inOrder
  rw [← map_handle_of_forall₂ hcopies]
  exact horder.perm.symm.map _

theorem Remembers.nodup_handles (h : c.Remembers recent) : (c.entries.map CachedNumbering.handle).Nodup := by
  obtain ⟨byUse, horder, -⟩ := h.inOrder
  exact (horder.perm.map CachedNumbering.handle).nodup_iff.1 horder.handles

theorem Remembers.exists_copy (h : c.Remembers recent) {e : CachedNumbering} (he : e ∈ c.entries) :
    ∃ p ∈ recent, IsEntryOf e p := by
  obtain ⟨byUse, horder, hcopies⟩ := h.inOrder
  exact exists_copy_of_mem hcopies (horder.perm.mem_iff.2 he)

/-! ### Requests -/

theorem find?_eq_none_iff {handle : Handle} :
    c.find? handle = none ↔ ∀ e ∈ c.entries, e.handle ≠ handle := by
  simp [find?]

theorem find?_of_mem (hhandles : (c.entries.map CachedNumbering.handle).Nodup) {e : CachedNumbering}
    (he : e ∈ c.entries) : c.find? e.handle = some e := by
  cases hfind : c.find? e.handle with
  | none => exact absurd rfl (find?_eq_none_iff.1 hfind e he)
  | some e' =>
    have hsame : e'.handle = e.handle := by simpa using List.find?_some hfind
    rw [List.inj_on_of_nodup_map hhandles (List.mem_of_find?_eq_some hfind) he hsame]

/-- A copy with an entry gets the numbering that was cached. -/
theorem buildOrGet_hit {p : Procedure} {e : CachedNumbering} (hfind : c.find? p.handle = some e) :
    c.buildOrGet p = ({ c with tick := c.tick + 1 }.touch p.handle (c.tick + 1), .ok e.numbering) := by
  have hfind' : find? { c with tick := c.tick + 1 } p.handle = some e := hfind
  simp only [buildOrGet, hfind']

/-- A copy without an entry gets a new one. -/
theorem buildOrGet_built {p : Procedure} {m : Numbering} (hfind : c.find? p.handle = none)
    (hbuild : Numbering.build p = .ok m) :
    c.buildOrGet p = ({ c with
      tick := c.tick + 2, entries := ⟨p.handle, m, c.tick + 2⟩ :: c.entries }.evict, .ok m) := by
  have hfind' : find? { c with tick := c.tick + 1 } p.handle = none := hfind
  simp only [buildOrGet, hfind', hbuild]

/-- A copy that cannot be numbered leaves the entries alone. -/
theorem buildOrGet_failed {p : Procedure} {stop : Stop WalkError} (hfind : c.find? p.handle = none)
    (hbuild : Numbering.build p = .error stop) :
    c.buildOrGet p = ({ c with tick := c.tick + 1 }, .error stop) := by
  have hfind' : find? { c with tick := c.tick + 1 } p.handle = none := hfind
  simp only [buildOrGet, hfind', hbuild]

theorem Remembers.nodup_recent (h : c.Remembers recent) : (recent.map Procedure.handle).Nodup :=
  h.handles_perm.nodup_iff.1 h.nodup_handles

/-- A copy that has an entry moves to the front. -/
theorem Remembers.hit (h : c.Remembers recent) {p : Procedure} (hp : p ∈ recent) {e : CachedNumbering}
    (he : e ∈ c.entries) (hentry : IsEntryOf e p) :
    Remembers ({ c with tick := c.tick + 1 }.touch p.handle (c.tick + 1))
      (p :: recent.filter fun q => q.handle != p.handle) := by
  obtain ⟨byUse, horder, hcopies⟩ := h.inOrder
  have hhandles := horder.handles
  rw [map_handle_of_forall₂ hcopies] at hhandles
  have hlength := (perm_cons_filter hp hhandles).length_eq
  have htouch := horder.touch (horder.perm.mem_iff.2 he) (Nat.lt_succ_self c.tick)
  rw [hentry.handle] at htouch
  refine ⟨⟨_, htouch, .cons ⟨rfl, hentry.build⟩ ?_⟩, hlength.symm.le.trans h.limited⟩
  refine List.rel_filter (fun x q hx => ?_) hcopies
  dsimp only
  rw [hx.handle]

/-- A copy that had no entry comes to the front, and the last one goes if the cache was full. -/
theorem Remembers.built (h : c.Remembers recent) {p : Procedure} {m : Numbering}
    (hnew : ∀ e ∈ c.entries, e.handle ≠ p.handle) (hbuild : Numbering.build p = .ok m) :
    Remembers ({ c with
      tick := c.tick + 2, entries := ⟨p.handle, m, c.tick + 2⟩ :: c.entries }.evict)
      ((p :: recent).take c.limit) := by
  obtain ⟨byUse, horder, hcopies⟩ := h.inOrder
  have hadded : InOrder { c with tick := c.tick + 2, entries := ⟨p.handle, m, c.tick + 2⟩ :: c.entries }
      (⟨p.handle, m, c.tick + 2⟩ :: byUse) := by
    refine horder.cons (by omega : c.tick < c.tick + 2) rfl ?_ (horder.perm.cons _)
    rw [List.mem_map]
    rintro ⟨e, he, hhandle⟩
    exact hnew e (horder.perm.mem_iff.1 he) hhandle
  exact ⟨⟨_, hadded.evict, List.forall₂_take _ (.cons ⟨rfl, hbuild⟩ hcopies)⟩, by simp [evict]⟩

/-- A request for a numbering is answered from the copies of the list, which are kept. -/
theorem Remembers.buildOrGet (h : c.Remembers recent) (p : Procedure) :
    (c.buildOrGet p).1.Remembers (CacheRequest.remember c.limit recent (.numbering p)) ∧
      (c.buildOrGet p).2 = Numbering.build (CacheRequest.asNumbered recent p) := by
  cases hfind : c.find? p.handle with
  | some e =>
    have he : e ∈ c.entries := List.mem_of_find?_eq_some hfind
    have hhandle : e.handle = p.handle := by simpa using List.find?_some hfind
    obtain ⟨q, hq, hentry⟩ := h.exists_copy he
    have hsame : q.handle = p.handle := hentry.handle.symm.trans hhandle
    have hnumbered := CacheRequest.asNumbered_of_mem h.nodup_recent hq hsame
    have hkept := h.hit hq he hentry
    have hshort : (q :: recent.filter fun q' => q'.handle != q.handle).length ≤ c.limit := hkept.limited
    rw [hsame] at hkept hshort
    rw [buildOrGet_hit hfind, CacheRequest.remember_ok (hnumbered ▸ hentry.build), hnumbered,
      List.take_of_length_le hshort]
    exact ⟨hkept, hentry.build.symm⟩
  | none =>
    have hnew := find?_eq_none_iff.1 hfind
    have hother : ∀ q ∈ recent, q.handle ≠ p.handle := by
      intro q hq
      have hmem := h.handles_perm.mem_iff.2 (List.mem_map_of_mem hq)
      obtain ⟨e, he, hhandle⟩ := List.mem_map.1 hmem
      exact hhandle ▸ hnew e he
    have hnew' : CacheRequest.Unchanged recent p := fun q hq hhandle => absurd hhandle (hother q hq)
    have hnumbered := hnew'.asNumbered_eq
    cases hbuild : Numbering.build p with
    | error stop =>
      obtain ⟨byUse, horder, hcopies⟩ := h.inOrder
      have hlater : InOrder { c with tick := c.tick + 1 } byUse :=
        ⟨horder.perm, horder.descending, fun e he => (horder.past e he).trans (Nat.le_succ _), horder.handles⟩
      rw [buildOrGet_failed hfind hbuild, CacheRequest.remember_error (hnumbered.symm ▸ hbuild), hnumbered]
      exact ⟨⟨⟨byUse, hlater, hcopies⟩, h.limited⟩, hbuild.symm⟩
    | ok m =>
      have hall : recent.filter (fun q => q.handle != p.handle) = recent :=
        List.filter_eq_self.2 fun q hq => by simpa using hother q hq
      rw [buildOrGet_built hfind hbuild, CacheRequest.remember_ok (hnumbered.symm ▸ hbuild), hnumbered, hall]
      exact ⟨h.built hnew hbuild, hbuild.symm⟩

theorem invalidate_eq (c : NumberingCache) (unit : Option UnitKey) :
    (c.invalidate unit).1 =
      { c with entries := c.entries.filter fun e => !unit.all (· == e.numbering.identity.unitKey) } := by
  cases unit with
  | none => simp [NumberingCache.invalidate]
  | some key => simp [NumberingCache.invalidate, bne, BEq.comm]

/-- An invalidation drops the entries of the copies that it is about, and tells their number. -/
theorem Remembers.invalidate (h : c.Remembers recent) (unit : Option UnitKey) :
    (c.invalidate unit).1.Remembers (recent.filter fun q => !q.isOf unit) ∧
      (c.invalidate unit).2 = recent.countP fun q => q.isOf unit := by
  obtain ⟨byUse, horder, hcopies⟩ := h.inOrder
  have hleft : (c.invalidate unit).1.Remembers (recent.filter fun q => !q.isOf unit) := by
    rw [invalidate_eq]
    refine ⟨⟨_, horder.sublist List.filter_sublist (horder.perm.filter _), ?_⟩,
      (List.length_filter_le _ _).trans h.limited⟩
    refine List.rel_filter (fun e q he => ?_) hcopies
    dsimp only
    rw [Procedure.isOf, (Numbering.build_eq_ok he.build).2.1]
    rfl
  refine ⟨hleft, ?_⟩
  have hbefore := h.handles_perm.length_eq
  have hafter := hleft.handles_perm.length_eq
  have hsplit := List.length_eq_length_filter_add (l := recent) fun q => q.isOf unit
  rw [List.length_map, List.length_map] at hbefore hafter
  rw [List.countP_eq_length_filter]
  show c.entries.length - (c.invalidate unit).1.entries.length = _
  omega

/-- Every request keeps the copies of the list, and is answered by them. -/
theorem Remembers.serve (h : c.Remembers recent) (request : CacheRequest) :
    (c.serve request).1.Remembers (request.remember c.limit recent) ∧
      (c.serve request).2 = request.answer recent := by
  cases request with
  | numbering p =>
    obtain ⟨hkept, hanswer⟩ := h.buildOrGet p
    exact ⟨hkept, congrArg CacheAnswer.numbering hanswer⟩
  | invalidate unit =>
    obtain ⟨hkept, hdropped⟩ := h.invalidate unit
    exact ⟨hkept, congrArg CacheAnswer.dropped hdropped⟩

theorem limit_serve (c : NumberingCache) (request : CacheRequest) : (c.serve request).1.limit = c.limit := by
  cases request with
  | invalidate unit => rfl
  | numbering p =>
    show (c.buildOrGet p).1.limit = c.limit
    cases hfind : c.find? p.handle with
    | some e => rw [buildOrGet_hit hfind]; rfl
    | none =>
      cases hbuild : Numbering.build p with
      | error stop => rw [buildOrGet_failed hfind hbuild]
      | ok m => rw [buildOrGet_built hfind hbuild]; rfl

/-- Whatever is cached after a request was cached before it, or was built for it. -/
theorem mem_entries_serve {request : CacheRequest} {e' : CachedNumbering} (he' : e' ∈ (c.serve request).1.entries) :
    (∃ e ∈ c.entries, e.handle = e'.handle ∧ e.numbering = e'.numbering) ∨
      ∃ p, request = .numbering p ∧ IsEntryOf e' p ∧ ∀ e ∈ c.entries, e.handle ≠ p.handle := by
  cases request with
  | invalidate unit =>
    have hmem : e' ∈ (c.invalidate unit).1.entries := he'
    rw [invalidate_eq] at hmem
    exact .inl ⟨e', List.mem_of_mem_filter hmem, rfl, rfl⟩
  | numbering p =>
    have hmem : e' ∈ (c.buildOrGet p).1.entries := he'
    cases hfind : c.find? p.handle with
    | some e =>
      rw [buildOrGet_hit hfind] at hmem
      obtain ⟨e₁, he₁, rfl⟩ := List.mem_map.1 hmem
      refine .inl ⟨e₁, he₁, ?_⟩
      split_ifs <;> exact ⟨rfl, rfl⟩
    | none =>
      cases hbuild : Numbering.build p with
      | error stop =>
        rw [buildOrGet_failed hfind hbuild] at hmem
        exact .inl ⟨e', hmem, rfl, rfl⟩
      | ok m =>
        rw [buildOrGet_built hfind hbuild] at hmem
        dsimp only [evict] at hmem
        rcases List.mem_cons.1 (List.mem_of_mem_filter hmem) with rfl | hmem
        · exact .inr ⟨p, rfl, ⟨rfl, hbuild⟩, find?_eq_none_iff.1 hfind⟩
        · exact .inl ⟨e', hmem, rfl, rfl⟩

/-! ### After any requests -/

/-- What a request does to a cache that should keep the copies in `recent`. -/
structure ServedExactly (limit : Nat) (c : NumberingCache) (recent : List Procedure) (request : CacheRequest) :
    Prop where
  /-- A numbering is that of the copy kept under the handle, or it is built now, and so is the reason why there is
  none; an invalidation tells how many entries went. -/
  answer : (c.serve request).2 = request.answer recent
  /-- A copy that has no entry, or is as it was when its entry was made, gets what would be built. -/
  transparent : ∀ p, request = .numbering p → CacheRequest.Unchanged recent p →
    (c.serve request).2 = .numbering (Numbering.build p)
  /-- Each copy in the list has one entry afterwards, and there is no other entry. -/
  handles : ((c.serve request).1.entries.map CachedNumbering.handle).Perm
    ((request.remember limit recent).map Procedure.handle)
  nodup : ((request.remember limit recent).map Procedure.handle).Nodup
  /-- A request that fails changes no entry. -/
  failed : ∀ stop, (c.serve request).2 = .numbering (.error stop) → (c.serve request).1.entries = c.entries
  /-- What is cached under a handle is given out as it is, even for a copy that would be numbered otherwise. -/
  cached : ∀ e ∈ c.entries, ∀ p : Procedure, p.handle = e.handle →
    (c.serve (.numbering p)).2 = .numbering (.ok e.numbering)
  /-- A numbering stays the same as long as it is cached. -/
  steady : ∀ e' ∈ (c.serve request).1.entries,
    (∃ e ∈ c.entries, e.handle = e'.handle ∧ e.numbering = e'.numbering) ∨
      ∃ p, request = .numbering p ∧ IsEntryOf e' p ∧ ∀ e ∈ c.entries, e.handle ≠ p.handle

theorem entries_of_failed {request : CacheRequest} {stop : Stop WalkError}
    (h : (c.serve request).2 = .numbering (.error stop)) : (c.serve request).1.entries = c.entries := by
  cases request with
  | invalidate unit => cases h
  | numbering p =>
    have hfailed : (c.buildOrGet p).2 = .error stop := CacheAnswer.numbering.inj h
    show (c.buildOrGet p).1.entries = c.entries
    cases hfind : c.find? p.handle with
    | some e =>
      rw [buildOrGet_hit hfind] at hfailed
      cases hfailed
    | none =>
      cases hbuild : Numbering.build p with
      | error stop' => rw [buildOrGet_failed hfind hbuild]
      | ok m =>
        rw [buildOrGet_built hfind hbuild] at hfailed
        cases hfailed

theorem Remembers.servedExactly (h : c.Remembers recent) (request : CacheRequest) :
    ServedExactly c.limit c recent request := by
  obtain ⟨hkept, hanswer⟩ := h.serve request
  refine ⟨hanswer, ?_, hkept.handles_perm, hkept.nodup_recent, fun _ => entries_of_failed, ?_,
    fun _ => mem_entries_serve⟩
  · rintro p rfl hunchanged
    rw [hanswer, CacheRequest.answer, hunchanged.asNumbered_eq]
  · intro e he p hhandle
    show CacheAnswer.numbering (c.buildOrGet p).2 = _
    rw [buildOrGet_hit (hhandle ▸ find?_of_mem h.nodup_handles he)]

/-- What one request keeps, any number of them keep. -/
theorem Remembers.serveAll (h : c.Remembers recent) (requests : List CacheRequest) :
    (c.serveAll requests).Remembers (requests.foldl (CacheRequest.remember c.limit) recent) ∧
      (c.serveAll requests).limit = c.limit := by
  induction requests generalizing c recent with
  | nil => exact ⟨h, rfl⟩
  | cons request requests ih =>
    have hrest := ih (h.serve request).1
    rw [c.limit_serve request] at hrest
    exact hrest

theorem remembers_withLimit (limit : Nat) : (withLimit limit).Remembers [] :=
  ⟨⟨[], ⟨.refl _, .nil, by simp, by simp⟩, .nil⟩, by simp⟩

theorem remembers_serveAll (limit : Nat) (requests : List CacheRequest) :
    ((withLimit limit).serveAll requests).Remembers (CacheRequest.rememberAll (max limit 1) requests) :=
  ((remembers_withLimit limit).serveAll requests).1

/-- After any requests to a cache of any limit, the next one is answered and served as a list does it in which
the copies asked for move to the front, as they were when they were numbered, and which is cut at the limit. -/
theorem served_by_recency (limit : Nat) (requests : List CacheRequest) (request : CacheRequest) :
    ServedExactly (max limit 1) ((withLimit limit).serveAll requests)
      (CacheRequest.rememberAll (max limit 1) requests) request := by
  have hlimit := ((remembers_withLimit limit).serveAll requests).2
  have hserved := (remembers_serveAll limit requests).servedExactly request
  rw [hlimit] at hserved
  exact hserved

end Remembers

/-- Copies of procedures with one statement; the interpreter reports two for the copy with handle 9. -/
def smallCopy (handle : Handle) : Procedure where
  handle := handle
  unitId := UInt32.ofNat handle
  ownerDb := 1
  version := 1
  location := 0
  name := "f"
  statementCount := if handle = 9 then 2 else 1
  body := .simple ⟨none, 1⟩ .return none

/-- Four copies, of which one cannot be numbered, one is dropped and one is asked for with another count, in a cache
for two of them. -/
def smallRequests : List CacheRequest :=
  [.numbering (smallCopy 1), .numbering (smallCopy 2), .numbering (smallCopy 9),
    .numbering { smallCopy 1 with statementCount := 99 }, .numbering (smallCopy 3), .invalidate (some ⟨3, 1⟩),
    .numbering (smallCopy 2)]

theorem served_by_recency_smallRequests :
    (CacheRequest.rememberAll 2 smallRequests).map (fun p => (p.handle, p.statementCount)) = [(2, 1), (1, 1)] ∧
      (CacheRequest.remember 2 (CacheRequest.rememberAll 2 smallRequests)
        (.numbering (smallCopy 3))).map Procedure.handle = [3, 2] ∧
      ServedExactly 2 ((withLimit 2).serveAll smallRequests) (CacheRequest.rememberAll 2 smallRequests)
        (.numbering (smallCopy 3)) :=
  ⟨by decide +kernel, by decide +kernel, served_by_recency 2 smallRequests _⟩

/-- A copy whose count or location was changed while it was cached is not numbered as it is now: it gets the numbering
of what it was. -/
theorem changed_copy_served_as_cached :
    ∃ m, Numbering.build (smallCopy 1) = .ok m ∧ m.identity = ⟨1, 1, 1, 0⟩ ∧
      (((withLimit 2).serveAll [.numbering (smallCopy 1)]).serve
        (.numbering { smallCopy 1 with statementCount := 99 })).2 = .numbering (.ok m) ∧
      Numbering.build { smallCopy 1 with statementCount := 99 } = .error (.error (.statementCountMismatch 99 1)) ∧
      (((withLimit 2).serveAll [.numbering (smallCopy 1)]).serve
        (.numbering { smallCopy 1 with location := 7 })).2 = .numbering (.ok m) ∧
      ∃ m', Numbering.build { smallCopy 1 with location := 7 } = .ok m' ∧ m'.identity = ⟨1, 1, 1, 7⟩ :=
  ⟨_, rfl, rfl, rfl, rfl, rfl, _, rfl, rfl⟩

end NumberingCache

end ProcProfile
