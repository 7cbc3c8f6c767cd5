import Mathlib.Tactic
import ProcProfile.Proofs.Disk
import ProcProfile.Proofs.Requests

/-!
# Locks of the dead

An owner that dies while it holds locks of a region in a file leaves its id in their words.  Whoever needs such a
lock next tries to take it, finds after a number of failed tries that the holder is dead, and takes the lock over.
Nobody sees a difference: every answer and everything that is stored is as if all locks had been free.

* `Owner.attempt`, `Owner.spin`, `Owner.take_eq_ok_iff_spin`: how a lock is taken, try by try;
* `Disk.ownerAlive_unlink`: whoever is dead stays dead;
* `Region.unlocked`, `Host.unlocked`: the same with all locks free;
* `Host.Twins`: a host beside one with free locks;
* `DeadLocksUnseen`, `dead_locks_unseen`: they answer alike.
-/

namespace ProcProfile

/-! ### Trying to take a lock -/

/-- After how many failed tries it is checked whether the holder is alive. -/
def livenessInterval : UInt32 := 1024

namespace Owner

variable {o : Owner} {word : UInt32} {weak : Nat → Bool} {retired : List UInt32}

/-- One try to take a lock, after a number of failed ones.  A weak exchange may fail although the lock is free. -/
def attempt (o : Owner) (word : UInt32) (weak : Bool) (failures : UInt32) : Option (List UInt32) :=
  if word = 0 ∧ weak = false then some []
  else if word ≠ 0 ∧ word ≠ o.id ∧ (failures + 1) % livenessInterval = 0 ∧ o.isAlive word = false then some [word]
  else none

/-- A number of tries to take a lock whose word nobody else changes; none if all of them failed. -/
def spin (o : Owner) (word : UInt32) (weak : Nat → Bool) : (tries : Nat) → Option (List UInt32)
  | 0 => none
  | tries + 1 => (o.spin word weak tries).or (o.attempt word (weak tries) (UInt32.ofNat tries))

theorem spin_of_free (o : Owner) (weak : Nat → Bool) (tries : Nat) :
    o.spin 0 weak tries = if ∃ n < tries, weak n = false then some [] else none := by
  induction tries with
  | zero => simp [spin]
  | succ tries ih =>
    rw [spin, ih]
    by_cases hbefore : ∃ n < tries, weak n = false
    · obtain ⟨n, hn, hweak⟩ := hbefore
      rw [if_pos ⟨n, hn, hweak⟩, if_pos ⟨n, by omega, hweak⟩]
      rfl
    · rw [if_neg hbefore]
      cases hweak : weak tries with
      | false =>
        rw [if_pos ⟨tries, by omega, hweak⟩]
        rfl
      | true =>
        rw [if_neg]
        · rfl
        · rintro ⟨n, hn, hfree⟩
          rcases Nat.lt_succ_iff_lt_or_eq.1 hn with hlt | rfl
          · exact hbefore ⟨n, hlt, hfree⟩
          · rw [hweak] at hfree
            cases hfree

/-- A holder that is alive is waited for. -/
theorem spin_of_alive (hword : word ≠ 0) (halive : word = o.id ∨ o.isAlive word = true) (weak : Nat → Bool)
    (tries : Nat) : o.spin word weak tries = none := by
  induction tries with
  | zero => rfl
  | succ tries ih =>
    rw [spin, ih, Option.none_or, attempt, if_neg fun h => hword h.1, if_neg]
    rintro ⟨-, hself, -, hdead⟩
    rcases halive with h | h
    · exact hself h
    · rw [hdead] at h
      cases h

/-- The first check of a dead holder is the one that ends the wait. -/
theorem spin_of_dead (hword : word ≠ 0) (hself : word ≠ o.id) (hdead : o.isAlive word = false) (weak : Nat → Bool) :
    o.spin word weak 1024 = some [word] := by
  have hattempt : ∀ n, o.attempt word (weak n) (UInt32.ofNat n) =
      if (UInt32.ofNat n + 1) % livenessInterval = 0 then some [word] else none := by
    intro n
    rw [attempt, if_neg fun h => hword h.1]
    simp [hword, hself, hdead]
  have hfails : ∀ n ≤ 1023, o.spin word weak n = none := by
    intro n hn
    induction n with
    | zero => rfl
    | succ n ih =>
      rw [spin, ih (by omega), Option.none_or, hattempt, if_neg]
      intro h
      have hmod := congrArg UInt32.toNat h
      rw [UInt32.toNat_mod, UInt32.toNat_add, UInt32.toNat_ofNat'] at hmod
      simp only [livenessInterval, UInt32.reduceToNat] at hmod
      omega
  rw [spin, hfails 1023 le_rfl, Option.none_or, hattempt]
  rfl

/-- Taking a lock is what comes of trying, if a free lock is not missed each time. -/
theorem take_eq_ok_iff_spin (hweak : ∃ n < 1024, weak n = false) :
    o.take word = .ok retired ↔ o.spin word weak 1024 = some retired := by
  unfold take
  by_cases hzero : word = 0
  · subst hzero
    rw [if_pos rfl, spin_of_free, if_pos hweak, Except.ok.injEq, Option.some.injEq]
  · rw [if_neg hzero]
    by_cases halive : word = o.id ∨ o.isAlive word = true
    · rw [spin_of_alive hzero halive, if_pos (by simpa using halive)]
      exact ⟨nofun, nofun⟩
    · obtain ⟨hself, hdead⟩ := not_or.1 halive
      rw [Bool.not_eq_true] at hdead
      rw [spin_of_dead hzero hself hdead, if_neg (by simpa using halive), Except.ok.injEq, Option.some.injEq]

end Owner

/-! ### Whoever is dead stays dead -/

namespace Disk

variable {d : Disk} {names : Names} {id : FileId}

theorem isTop_of_lookup (hnames : d.lookup names = some (.file id)) : names.isTop = false := by
  unfold lookup at hnames
  split_ifs at hnames with htop
  · cases hnames
  · simpa using htop

/-- A name that was taken off a file leads nowhere, all others lead where they led. -/
theorem find_unbind (hnames : d.lookup names = some (.file id)) (t : Target) :
    (d.unbind names).find t = d.find t ∨ (d.unbind names).find t = .ok none ∧ d.find t = .ok (some (.file id)) := by
  unfold find
  rw [lookup_unbind d (isTop_of_lookup hnames)]
  split_ifs with hlong hhere
  · exact .inl rfl
  · rw [hhere, hnames]
    exact .inr ⟨rfl, rfl⟩
  · exact .inl rfl

theorem follow_unbind (hnames : d.lookup names = some (.file id)) (flag : Bool) (dir : Names)
    (parts : List String) :
    (d.unbind names).follow flag dir parts = d.follow flag dir parts ∨
      (d.unbind names).follow flag dir parts = .error .notFound := by
  induction parts generalizing dir with
  | nil => exact .inl rfl
  | cons part rest ih =>
    by_cases hrest : rest = []
    · subst hrest
      exact .inl rfl
    · rw [follow.eq_3 _ flag dir part rest hrest, follow.eq_3 _ flag dir part rest hrest]
      rcases find_unbind hnames ⟨dir, part, true⟩ with h | ⟨h, -⟩
      · rw [h]
        cases d.find ⟨dir, part, true⟩ with
        | error e => exact .inl rfl
        | ok node =>
          rcases node with _ | _ | _
          · exact .inl rfl
          · exact ih _
          · exact .inl rfl
      · rw [h]
        exact .inr rfl

/-- Without one of its files, a disk leads to what it led to, or nowhere. -/
theorem resolve_unbind (hnames : d.lookup names = some (.file id)) (path : String) :
    (d.unbind names).resolve path = d.resolve path ∨ (d.unbind names).resolve path = .error .notFound := by
  have htarget : (d.unbind names).target path = d.target path ∨ (d.unbind names).target path = .error .notFound := by
    unfold target
    generalize (if Path.isAbsolute path then ["/"] else []) = start
    split_ifs
    · exact .inl rfl
    · exact .inl rfl
    · exact .inl rfl
    · exact follow_unbind hnames _ _ _
  unfold resolve
  rcases htarget with h | h
  · rw [h]
    cases d.target path with
    | error e => exact .inl rfl
    | ok t =>
      show Except.bind ((d.unbind names).find t) _ = Except.bind (d.find t) _ ∨
        Except.bind ((d.unbind names).find t) _ = _
      rcases find_unbind hnames t with h | ⟨h, -⟩
      · rw [h]
        exact .inl rfl
      · rw [h]
        exact .inr rfl
  · rw [h]
    exact .inr rfl

theorem lookup_of_resolve {path : String} (h : d.resolve path = .ok (names, .file id)) :
    d.lookup names = some (.file id) := by
  obtain ⟨t, -, -, hnode, rfl, -⟩ := resolve_ok_iff.1 h
  exact hnode

theorem ownerAlive_unlink {region : String} {owner : UInt32} (h : d.ownerAlive region owner = false) (path : String) :
    (d.unlink path).ownerAlive region owner = false := by
  unfold unlink
  split
  · rename_i names id hpath
    have hresolve := resolve_unbind (lookup_of_resolve hpath) (tokenPath region owner)
    unfold ownerAlive openFile at h ⊢
    rcases hresolve with hsame | hnone
    · rw [hsame]
      exact h
    · rw [hnone]
      rfl
  · exact h

/-- Whoever is dead stays dead, whichever tokens are removed. -/
theorem ownerAlive_removeTokens {region : String} {owner : UInt32} (h : d.ownerAlive region owner = false)
    (owners : List UInt32) : (d.removeTokens region owners).ownerAlive region owner = false := by
  unfold removeTokens
  induction owners generalizing d with
  | nil => exact h
  | cons other owners ih => exact ih (ownerAlive_unlink h _)

end Disk

/-! ### Without locks -/

section Tables

variable {κ ν : Type}

/-- A table with all its locks free. -/
def Table.unlocked (t : Table κ ν) : Table κ ν :=
  { t with
    written := t.written.map fun _ slot => { slot with mutex := 0 }
    lt_size := fun i hi => t.lt_size i (Std.TreeMap.mem_map.1 hi) }

theorem Slot.Matches.unlocked_eq {s s' : Slot κ ν} (h : s.Matches s') (hfree : s'.mutex = 0) :
    { s with mutex := 0 } = s' := by
  obtain ⟨state, mutex, key, value⟩ := s
  obtain ⟨state', mutex', key', value'⟩ := s'
  obtain ⟨rfl, rfl, rfl⟩ := h
  subst hfree
  rfl

variable [Inhabited κ] [Inhabited ν] {t t' : Table κ ν}

theorem Table.get_unlocked (t : Table κ ν) (i : Nat) : t.unlocked.get i = { t.get i with mutex := 0 } := by
  simp only [unlocked, get, Std.TreeMap.getD_eq_getD_getElem?, Std.TreeMap.getElem?_map]
  cases t.written[i]? <;> rfl

theorem Table.alike_unlocked (t : Table κ ν) : t.Matches t.unlocked where
  size := rfl
  slot i := by
    rw [get_unlocked]
    exact ⟨rfl, rfl, rfl⟩

theorem Table.Matches.sameSlots_unlocked (h : t.Matches t') (hfree : ∀ i, (t'.get i).mutex = 0) :
    t.unlocked.SameSlots t' where
  size := h.size
  get i := by
    rw [get_unlocked]
    exact (h.slot i).unlocked_eq (hfree i)

end Tables

namespace Region

variable {r r' : Region}

/-- A region with all its locks free. -/
def unlocked (r : Region) : Region := { r with chunks := r.chunks.unlocked, units := r.units.unlocked }

theorem word_unlocked (r : Region) (l : LockPlace) : r.unlocked.word l = 0 := by
  cases l with
  | chunk i => exact congrArg Slot.mutex (r.chunks.get_unlocked i)
  | unit i => exact congrArg Slot.mutex (r.units.get_unlocked i)

theorem alike_unlocked (r : Region) : r.Matches r.unlocked :=
  ⟨⟨r.header.nextOwner, rfl⟩, r.chunks.alike_unlocked, r.units.alike_unlocked⟩

/-- What is alike is the same but for the locks, if the same owner id was handed out last. -/
theorem Matches.sameSlots_unlocked (h : r.Matches r') (howner : r.header.nextOwner = r'.header.nextOwner)
    (hfree : ∀ l, r'.word l = 0) : r.unlocked.SameSlots r' where
  header := by
    obtain ⟨owner, hheader⟩ := h.header
    have hsame : owner = r'.header.nextOwner := by
      rw [← howner, hheader]
    show r.header = r'.header
    rw [hheader, hsame]
  chunks := h.chunks.sameSlots_unlocked fun i => hfree (.chunk i)
  units := h.units.sameSlots_unlocked fun i => hfree (.unit i)

theorem Frame.nextOwner_eq (h : Frame r r') : r'.header.nextOwner = r.header.nextOwner := by
  obtain ⟨used, unitsUsed, hheader⟩ := h.header
  rw [hheader]

end Region

/-! ### Two hosts -/

namespace Host

variable {h h' : Host} {a : Attachment}

/-- Every lock of the region behind a handle is free, or a dead owner holds it. -/
def LocksDead (h : Host) (a : Attachment) : Prop :=
  ∀ l, (h.region (.file a)).word l = 0 ∨
    (h.region (.file a)).word l ≠ a.owner ∧ h.disk.ownerAlive a.path ((h.region (.file a)).word l) = false

theorem LocksDead.takeable (hdead : h.LocksDead a) : (h.region (.file a)).Takeable (h.ownerOf a) := by
  rw [Region.takeable_iff]
  intro l
  rw [Owner.canTake_iff]
  refine (hdead l).imp_right fun hl => ⟨hl.1, ?_⟩
  show ((h.region (.file a)).word l == a.owner || h.disk.ownerAlive a.path ((h.region (.file a)).word l)) = false
  rw [hl.2, Bool.or_false, beq_eq_false_iff_ne]
  exact hl.1

/-- Only the slots that there are have locks. -/
theorem locksDead_of_lt
    (hchunks : ∀ i < a.layout.capacity, (h.region (.file a)).word (.chunk i) ≠ a.owner ∧
      h.disk.ownerAlive a.path ((h.region (.file a)).word (.chunk i)) = false)
    (hunits : ∀ i < a.layout.unitCapacity, (h.region (.file a)).word (.unit i) ≠ a.owner ∧
      h.disk.ownerAlive a.path ((h.region (.file a)).word (.unit i)) = false) : h.LocksDead a := by
  have hlayout := h.layout_region a
  intro l
  cases l with
  | chunk i =>
    by_cases hi : i < a.layout.capacity
    · exact .inr (hchunks i hi)
    · have hsize : (h.region (.file a)).chunks.size ≤ i := by
        rw [← hlayout] at hi
        exact Nat.not_lt.1 hi
      exact .inl (congrArg Slot.mutex (Table.get_of_size_le _ hsize))
  | unit i =>
    by_cases hi : i < a.layout.unitCapacity
    · exact .inr (hunits i hi)
    · have hsize : (h.region (.file a)).units.size ≤ i := by
        rw [← hlayout] at hi
        exact Nat.not_lt.1 hi
      exact .inl (congrArg Slot.mutex (Table.get_of_size_le _ hsize))

/-- After an operation a lock is free, or the dead owner that held it before holds it still. -/
theorem LocksDead.written (hdead : h.LocksDead a) (hm : h.Maps a) {q : Region}
    (hframe : Region.Frame (h.region (.file a)) q) (retired : List UInt32) : (h.written a q retired).LocksDead a := by
  intro l
  have hlayout : q.layout = a.layout := hframe.layout.trans (h.layout_region a)
  rw [hm.region_written hlayout]
  rcases hframe.word l with hzero | hsame
  · exact .inl hzero
  · rw [hsame]
    refine (hdead l).imp_right fun hl => ⟨hl.1, Disk.ownerAlive_removeTokens ?_ retired⟩
    rw [Disk.modify, Disk.ownerAlive_write]
    exact hl.2

/-- A host whose region has dead locks, and one whose region is the same without locks. -/
structure Twins (a : Attachment) (h h' : Host) : Prop where
  maps : h.Maps a
  maps' : h'.Maps a
  dead : h.LocksDead a
  free : ∀ l, (h'.region (.file a)).word l = 0
  alike : (h.region (.file a)).Matches (h'.region (.file a))
  nextOwner : (h.region (.file a)).header.nextOwner = (h'.region (.file a)).header.nextOwner

/-- The same host, with all locks of the region behind a handle free. -/
def unlocked (h : Host) (a : Attachment) : Host := h.written a (h.region (.file a)).unlocked []

theorem twins_unlocked (hm : h.Maps a) (hdead : h.LocksDead a) : Twins a h (h.unlocked a) := by
  have hlayout : (h.region (.file a)).unlocked.layout = a.layout := h.layout_region a
  have hregion : (h.unlocked a).region (.file a) = (h.region (.file a)).unlocked := hm.region_written hlayout []
  refine ⟨hm, hm.written hlayout [], hdead, fun l => ?_, ?_, ?_⟩
  · rw [hregion]
    exact Region.word_unlocked _ l
  · rw [hregion]
    exact Region.alike_unlocked _
  · rw [hregion]
    rfl

theorem locksDead_of_free (hfree : ∀ l, (h.region (.file a)).word l = 0) : h.LocksDead a := fun l => .inl (hfree l)

/-- One request is answered alike, not by waiting, and leaves twins behind. -/
theorem Twins.ask (ht : Twins a h h') (request : Request) :
    (h.ask (.file a) request).2 = (h'.ask (.file a) request).2 ∧
      (h.ask (.file a) request).2 ≠ .error .waiting ∧
      Twins a (h.ask (.file a) request).1 (h'.ask (.file a) request).1 := by
  cases request with
  | info =>
    refine ⟨?_, nofun, ht⟩
    show Except.ok (Answer.info (h.info (.file a))) = .ok (.info (h'.info (.file a)))
    rw [ht.maps.info_eq, ht.maps'.info_eq, ht.alike.info_eq]
  | operation op =>
    have hlockstep := op.alike ht.alike ht.dead.takeable (locksDead_of_free ht.free).takeable
    rw [Host.ask, Host.ask]
    generalize hx : op.run (h.ownerOf a) (h.region (.file a)) = x at hlockstep
    generalize hy : op.run (h'.ownerOf a) (h'.region (.file a)) = y at hlockstep
    cases hlockstep with
    | error hf =>
      rw [perform_of_error hx, perform_of_error hy]
      subst hf
      exact ⟨rfl, nofun, ht⟩
    | @ok access access' halike =>
      rw [perform_of_ok hx, perform_of_ok hy]
      have hframe := Operation.frame hx
      have hframe' := Operation.frame hy
      have hlayout : access.region.layout = a.layout := hframe.layout.trans (h.layout_region a)
      have hlayout' : access'.region.layout = a.layout := hframe'.layout.trans (h'.layout_region a)
      refine ⟨congrArg Except.ok halike.answer, nofun, ⟨ht.maps.written hlayout _, ht.maps'.written hlayout' _,
        ht.dead.written ht.maps hframe _, fun l => ?_, ?_, ?_⟩⟩
      · rw [ht.maps'.region_written hlayout']
        exact hframe'.free ht.free l
      · rw [ht.maps.region_written hlayout, ht.maps'.region_written hlayout']
        exact halike.region
      · rw [ht.maps.region_written hlayout, ht.maps'.region_written hlayout', hframe.nextOwner_eq,
          hframe'.nextOwner_eq]
        exact ht.nextOwner

/-- Requests one after another are answered alike, none by waiting, and leave twins behind. -/
theorem Twins.askAll (ht : Twins a h h') (requests : List Request) :
    (h.askAll (.file a) requests).2 = (h'.askAll (.file a) requests).2 ∧
      (∀ answer ∈ (h.askAll (.file a) requests).2, answer ≠ .error .waiting) ∧
      Twins a (h.askAll (.file a) requests).1 (h'.askAll (.file a) requests).1 := by
  induction requests generalizing h h' with
  | nil => exact ⟨rfl, nofun, ht⟩
  | cons request requests ih =>
    obtain ⟨hsame, hanswered, hafter⟩ := ht.ask request
    obtain ⟨hsames, hanswereds, hend⟩ := ih hafter
    rw [Host.askAll, Host.askAll]
    refine ⟨?_, fun answer hanswer => ?_, hend⟩
    · show _ :: _ = _ :: _
      rw [hsame, hsames]
    · rcases List.mem_cons.1 hanswer with rfl | hanswer
      · exact hanswered
      · exact hanswereds answer hanswer

end Host

/-! ### Any requests -/

/-- A host on which the owner behind a handle gets every lock that it needs, and gives it back. -/
structure Host.LocksServed (h : Host) (a : Attachment) : Prop where
  /-- Every lock is taken by the 1024th try, if a free lock is not missed each time. -/
  taken : ∀ l weak, (∃ n < 1024, weak n = false) →
    ∃ retired, (h.ownerOf a).spin ((h.region (.file a)).word l) weak 1024 = some retired
  /-- The locks that an operation takes are free in the file when it answers, and whoever held one lost it. -/
  released : ∀ (op : Operation) access, op.run (h.ownerOf a) (h.region (.file a)) = .ok access →
    (h.region (.file a)).Took (op.locks (h.region (.file a))) access ∧
      (h.ask (.file a) (.operation op)).1.region (.file a) = access.region

theorem Host.LocksDead.served {h : Host} {a : Attachment} (hdead : h.LocksDead a) (hm : h.Maps a) :
    h.LocksServed a where
  taken l weak hweak := by
    obtain ⟨retired, htake⟩ := Region.takeable_iff.1 hdead.takeable l
    exact ⟨retired, (Owner.take_eq_ok_iff_spin hweak).1 htake⟩
  released op access hrun := by
    have hlayout := (Operation.frame hrun).layout.trans (h.layout_region a)
    rw [Host.ask, Host.perform_of_ok hrun, hm.region_written hlayout]
    exact ⟨Operation.took hrun, rfl⟩

/-- What the locks of dead owners do to requests through a handle: nothing that anyone sees. -/
structure DeadLocksUnseen (h : Host) (a : Attachment) (requests : List Request) : Prop where
  /-- The answers are those that are given without locks. -/
  answers : (h.askAll (.file a) requests).2 = ((h.unlocked a).askAll (.file a) requests).2
  /-- What is stored afterwards is what is stored without locks. -/
  contents : ((h.askAll (.file a) requests).1.region (.file a)).unlocked.SameSlots
    (((h.unlocked a).askAll (.file a) requests).1.region (.file a))
  /-- No request waits for ever. -/
  answered : ∀ answer ∈ (h.askAll (.file a) requests).2, answer ≠ .error .waiting
  /-- So it goes on. -/
  served : (h.askAll (.file a) requests).1.LocksServed a

theorem dead_locks_unseen {h : Host} {a : Attachment} (hmaps : h.Maps a) (hdead : h.LocksDead a)
    (requests : List Request) : DeadLocksUnseen h a requests := by
  obtain ⟨hanswers, hanswered, hend⟩ := (Host.twins_unlocked hmaps hdead).askAll requests
  constructor
  · exact hanswers
  · exact hend.alike.sameSlots_unlocked hend.nextOwner hend.free
  · exact hanswered
  · exact hend.dead.served hend.maps

/-- A region with a chunk and with the calls of a procedure.  Dead owners hold all its locks, also those of a slot
that is not used. -/
def abandonedRegion : Region :=
  ((((((Region.create 2 1).insertChunk ⟨1, 1, 0, 0⟩ 1).1.insertUnit ⟨1, 1⟩).1.relock 0 7).relock 1 9).relockUnit 0 7)

/-- The region in a file.  The token of owner 5 is locked, that of owner 7 was left behind, and owner 9 has none. -/
def abandonedHost : Host :=
  ⟨⟨[(["region"], .file 0), (["region.owner-5"], .file 1), (["region.owner-7"], .file 2)],
    #[.ofRegion abandonedRegion, .empty, .empty], [1]⟩, #[]⟩

theorem dead_locks_unseen_abandonedHost :
    abandonedHost.Maps ⟨0, "region", ⟨2, 1⟩, 5, 1⟩ ∧ abandonedHost.LocksDead ⟨0, "region", ⟨2, 1⟩, 5, 1⟩ ∧
      DeadLocksUnseen abandonedHost ⟨0, "region", ⟨2, 1⟩, 5, 1⟩
        [.operation (.fold ⟨1, 1, 0, 0⟩ [.ofLine 3]), .operation (.recordCall ⟨1, 1⟩ 10 false), .info,
          .operation (.findChunk ⟨1, 1, 0, 0⟩ 1), .operation .summaries] := by
  have hmaps : abandonedHost.Maps ⟨0, "region", ⟨2, 1⟩, 5, 1⟩ := ⟨by decide, by decide, by decide +kernel⟩
  have hdead : abandonedHost.LocksDead ⟨0, "region", ⟨2, 1⟩, 5, 1⟩ := by
    apply Host.locksDead_of_lt
    · decide +kernel
    · decide +kernel
  exact ⟨hmaps, hdead, dead_locks_unseen hmaps hdead _⟩

end ProcProfile
