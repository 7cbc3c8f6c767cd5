import Mathlib.Tactic
import ProcProfile.Proofs.Call.Ending
import ProcProfile.Proofs.Region.ChunkMap
import ProcProfile.Proofs.Region.Image
import ProcProfile.Proofs.Region.Moves

/-!
# Regions that cannot be told apart

Two regions are alike if they differ in lock words and in the owner id handed out last only.  No operation tells
them apart, as long as it can take the locks that it needs in both: it gives the same answer, or stops for the same
reason, and leaves regions that are alike.

* `GoAlike`: computations that give related answers or fail for the same reason;
* `Table.Matches`, `Region.Matches`: what lock words do not matter for;
* `Owner.CanTake`, `Region.Takeable`: locks that can be taken;
* `Region.Matches.fold`, `Region.Matches.reset`, `Region.Matches.recordCall`, …: every operation.
-/

namespace ProcProfile

/-! ### Two computations -/

section GoAlike

variable {ε α β α' β' : Type} {R : α → β → Prop} {S : α' → β' → Prop} {bad : ε → Prop} {x : Except ε α}
  {y : Except ε β}

/-- Two computations give related answers, or fail for the same reason. -/
inductive GoAlike (R : α → β → Prop) (bad : ε → Prop) : Except ε α → Except ε β → Prop
  | ok {a : α} {b : β} (h : R a b) : GoAlike R bad (.ok a) (.ok b)
  | error {e : ε} (h : bad e) : GoAlike R bad (.error e) (.error e)

theorem GoAlike.bind {f : α → Except ε α'} {g : β → Except ε β'} (h : GoAlike R bad x y)
    (hfg : ∀ a b, R a b → GoAlike S bad (f a) (g b)) : GoAlike S bad (x >>= f) (y >>= g) := by
  cases h with
  | ok h => exact hfg _ _ h
  | error h => exact .error h

/-- What is known of every answer may be added. -/
theorem GoAlike.and_ok {P : α → Prop} {Q : β → Prop} (h : GoAlike R bad x y) (hx : ∀ a, x = .ok a → P a)
    (hy : ∀ b, y = .ok b → Q b) : GoAlike (fun a b => R a b ∧ P a ∧ Q b) bad x y := by
  cases h with
  | ok h => exact .ok ⟨h, hx _ rfl, hy _ rfl⟩
  | error h => exact .error h

theorem GoAlike.of_endsIn {P : α → Prop} (h : EndsIn P bad x) : GoAlike Eq bad x x := by
  cases h with
  | ok _ => exact .ok rfl
  | error h => exact .error h

end GoAlike

/-! ### Tables -/

section Tables

variable {κ ν : Type}

/-- Slots that differ in their lock word only. -/
structure Slot.Matches (s s' : Slot κ ν) : Prop where
  state : s.state = s'.state
  key : s.key = s'.key
  value : s.value = s'.value

theorem Slot.Matches.isUsed_eq {s s' : Slot κ ν} (h : s.Matches s') : s.isUsed = s'.isUsed := by
  unfold isUsed
  rw [h.state]

theorem Slot.Matches.status_eq {s s' : Slot κ ν} (h : s.Matches s') : s.status = s'.status := by
  unfold status
  rw [h.state]

theorem Slot.Matches.key?_eq {s s' : Slot κ ν} (h : s.Matches s') : s.key? = s'.key? := by
  unfold key?
  rw [h.isUsed_eq, h.key]

namespace Table

/-- The slots that hold an entry come in the order of their indices. -/
theorem pairwise_indices (t : Table κ ν) (test : κ → Bool) : (t.indices test).Pairwise (· < ·) := by
  unfold indices
  refine List.Pairwise.filterMap _ (fun e e' hlt i hi j hj => ?_) t.ordered_toList
  obtain ⟨k, slot⟩ := e
  obtain ⟨k', slot'⟩ := e'
  dsimp only at hi hj
  split_ifs at hi hj
  cases hi
  cases hj
  exact hlt

variable [Inhabited κ] [Inhabited ν] {t t' : Table κ ν}

variable (t t') in
/-- Tables that differ in lock words only. -/
structure Matches : Prop where
  size : t.size = t'.size
  slot : ∀ i, (t.get i).Matches (t'.get i)

theorem Matches.isUsed_eq (h : t.Matches t') (i : Nat) : t.isUsed i = t'.isUsed i := (h.slot i).isUsed_eq

theorem Matches.modify (h : t.Matches t') (i : Nat) {f g : Slot κ ν → Slot κ ν}
    (hf : ∀ s s', s.Matches s' → (f s).Matches (g s')) : (t.modify i f).Matches (t'.modify i g) where
  size := by
    rw [size_modify, size_modify]
    exact h.size
  slot j := by
    rw [get_modify, get_modify, h.size]
    split_ifs
    · exact hf _ _ (h.slot j)
    · exact h.slot j

theorem Matches.place (h : t.Matches t') (i : Nat) (key : κ) (value : ν) :
    (t.place i key value).Matches (t'.place i key value) :=
  h.modify i (f := fun _ => ⟨Slot.usedWord, 0, key, value⟩) (g := fun _ => ⟨Slot.usedWord, 0, key, value⟩)
    fun _ _ _ => ⟨rfl, rfl, rfl⟩

theorem Matches.remove (h : t.Matches t') (i : Nat) : (t.remove i).Matches (t'.remove i) := by
  unfold Table.remove
  rw [h.isUsed_eq]
  split_ifs
  · exact h.modify i fun _ _ hs => ⟨rfl, hs.key, hs.value⟩
  · exact h

theorem Matches.write (h : t.Matches t') (i : Nat) (value : ν) : (t.write i value).Matches (t'.write i value) :=
  h.modify i fun _ _ hs => ⟨hs.state, hs.key, rfl⟩

theorem Matches.setMutex (h : t.Matches t') (i : Nat) (word word' : UInt32) :
    (t.setMutex i word).Matches (t'.setMutex i word') :=
  h.modify i fun _ _ hs => ⟨hs.state, hs.key, hs.value⟩

theorem Matches.clear (h : t.Matches t') : t.clear.Matches t'.clear where
  size := h.size
  slot i := by
    rw [get_clear, get_clear]
    exact ⟨rfl, (h.slot i).key, (h.slot i).value⟩

theorem Matches.indices_eq (h : t.Matches t') (test : κ → Bool) : t.indices test = t'.indices test := by
  refine eq_of_pairwise_rank (t.pairwise_indices test) (t'.pairwise_indices test) fun i => ?_
  rw [mem_indices, mem_indices, h.isUsed_eq, (h.slot i).key]

theorem Matches.entries_eq (h : t.Matches t') : t.entries = t'.entries := by
  rw [entries_eq_map, entries_eq_map, h.indices_eq]
  refine List.map_congr_left fun i _ => ?_
  rw [(h.slot i).key, (h.slot i).value]

variable [Slotted κ]

theorem Matches.scan_eq (h : t.Matches t') (key : κ) (start left : Nat) (vacant : Option Nat) :
    t.scan key start left vacant = t'.scan key start left vacant := by
  induction left generalizing vacant with
  | zero => rfl
  | succ left ih =>
    unfold scan
    dsimp only
    rw [h.size, (h.slot _).status_eq, (h.slot _).key, ih, ih]

theorem Matches.lookup_eq (h : t.Matches t') (key : κ) : t.lookup key = t'.lookup key := by
  unfold lookup home
  rw [h.size, h.scan_eq]

theorem Matches.find?_eq (h : t.Matches t') (key : κ) : t.find? key = t'.find? key := by
  unfold find?
  rw [h.lookup_eq]

end Table

end Tables

/-! ### Locks that can be taken -/

/-- A lock word that an owner can take without waiting. -/
def Owner.CanTake (o : Owner) (word : UInt32) : Prop := ∃ retired, o.take word = .ok retired

theorem Owner.canTake_iff {o : Owner} {word : UInt32} :
    o.CanTake word ↔ word = 0 ∨ word ≠ o.id ∧ o.isAlive word = false := by
  unfold CanTake take
  by_cases hzero : word = 0
  · simp [hzero]
  · rw [if_neg hzero]
    by_cases hself : word = o.id
    · simp [hself, hself ▸ hzero]
    · cases o.isAlive word <;> simp [hzero, hself]

theorem Owner.canTake_zero (o : Owner) : o.CanTake 0 := ⟨[], rfl⟩

namespace Region

variable {r r' q : Region} {o o' : Owner}

/-- An owner can take every lock of a region. -/
structure Takeable (o : Owner) (r : Region) : Prop where
  chunk : ∀ i, o.CanTake (r.chunks.get i).mutex
  unit : ∀ i, o.CanTake (r.units.get i).mutex

/-- Whatever an operation does, the locks can be taken afterwards. -/
theorem Takeable.of_frame (h : r.Takeable o) (hframe : Frame r q) : q.Takeable o where
  chunk i := by
    rcases hframe.chunks i with hzero | hsame
    · rw [hzero]
      exact o.canTake_zero
    · rw [hsame]
      exact h.chunk i
  unit i := by
    rcases hframe.units i with hzero | hsame
    · rw [hzero]
      exact o.canTake_zero
    · rw [hsame]
      exact h.unit i

/-! ### Regions -/

/-- Regions that differ in lock words and in the owner id handed out last only. -/
structure Matches (r r' : Region) : Prop where
  header : ∃ owner, r.header = { r'.header with nextOwner := owner }
  chunks : r.chunks.Matches r'.chunks
  units : r.units.Matches r'.units

theorem Matches.refl (r : Region) : r.Matches r where
  header := ⟨_, rfl⟩
  chunks := ⟨rfl, fun _ => ⟨rfl, rfl, rfl⟩⟩
  units := ⟨rfl, fun _ => ⟨rfl, rfl, rfl⟩⟩

theorem Matches.used_eq (h : r.Matches r') : r.header.used = r'.header.used := by
  obtain ⟨owner, hheader⟩ := h.header
  rw [hheader]

theorem Matches.unitsUsed_eq (h : r.Matches r') : r.header.unitsUsed = r'.header.unitsUsed := by
  obtain ⟨owner, hheader⟩ := h.header
  rw [hheader]

theorem Matches.layout_eq (h : r.Matches r') : r.layout = r'.layout := by
  unfold layout capacity unitCapacity
  rw [h.chunks.size, h.units.size]

theorem Matches.setChunks (h : r.Matches r') {t t' : Table ChunkKey Page} (ht : t.Matches t') (used : UInt64) :
    Matches { r with header := { r.header with used := used }, chunks := t }
      { r' with header := { r'.header with used := used }, chunks := t' } where
  header := by
    obtain ⟨owner, hheader⟩ := h.header
    exact ⟨owner, by rw [hheader]⟩
  chunks := ht
  units := h.units

theorem Matches.setUnits (h : r.Matches r') {t t' : Table UnitKey CallStats} (ht : t.Matches t') (used : UInt64) :
    Matches { r with header := { r.header with unitsUsed := used }, units := t }
      { r' with header := { r'.header with unitsUsed := used }, units := t' } where
  header := by
    obtain ⟨owner, hheader⟩ := h.header
    exact ⟨owner, by rw [hheader]⟩
  chunks := h.chunks
  units := ht

theorem Matches.relock (h : r.Matches r') (i : Nat) (word word' : UInt32) :
    (r.relock i word).Matches (r'.relock i word') :=
  ⟨h.header, h.chunks.setMutex i word word', h.units⟩

theorem Matches.relockUnit (h : r.Matches r') (i : Nat) (word word' : UInt32) :
    (r.relockUnit i word).Matches (r'.relockUnit i word') :=
  ⟨h.header, h.chunks, h.units.setMutex i word word'⟩

theorem Matches.find?_eq (h : r.Matches r') (key : ChunkKey) : r.find? key = r'.find? key := h.chunks.find?_eq key

theorem Matches.findUnit?_eq (h : r.Matches r') (key : UnitKey) : r.findUnit? key = r'.findUnit? key :=
  h.units.find?_eq key

theorem Matches.page_eq (h : r.Matches r') (i : Nat) : r.page i = r'.page i :=
  congrArg Page.records (h.chunks.slot i).value

theorem Matches.stats_eq (h : r.Matches r') (i : Nat) : r.stats i = r'.stats i := (h.units.slot i).value

/-- Regions that are alike, with the same answer. -/
structure MatchesWith {α : Type} (a b : Region × α) : Prop where
  region : a.1.Matches b.1
  answer : a.2 = b.2

theorem Matches.insert (h : r.Matches r') (key : ChunkKey) : MatchesWith (r.insert key) (r'.insert key) := by
  unfold Region.insert Region.capacity
  rw [h.chunks.lookup_eq, h.chunks.size, h.used_eq]
  cases r'.chunks.lookup key with
  | found i => exact ⟨h, rfl⟩
  | vacant vacant =>
    cases vacant with
    | none => exact ⟨h, rfl⟩
    | some i => exact ⟨h.setChunks (h.chunks.place i key Page.unused) _, rfl⟩

theorem Matches.remove (h : r.Matches r') (i : Nat) : (r.remove i).Matches (r'.remove i) := by
  unfold Region.remove
  rw [h.chunks.isUsed_eq, h.used_eq]
  split_ifs
  · exact h.setChunks (h.chunks.remove i) _
  · exact h

theorem Matches.removeAll (h : r.Matches r') (slots : List Nat) :
    (slots.foldl Region.remove r).Matches (slots.foldl Region.remove r') := by
  induction slots generalizing r r' with
  | nil => exact h
  | cons i slots ih => exact ih (h.remove i)

theorem Matches.clear (h : r.Matches r') : r.clear.Matches r'.clear := h.setChunks h.chunks.clear 0

theorem Matches.writePage (h : r.Matches r') (i : Nat) (records : List Record) :
    (r.writePage i records).Matches (r'.writePage i records) :=
  ⟨h.header, h.chunks.write i ⟨records⟩, h.units⟩

theorem Matches.insertUnit (h : r.Matches r') (key : UnitKey) : MatchesWith (r.insertUnit key) (r'.insertUnit key) := by
  unfold Region.insertUnit Region.unitCapacity
  rw [h.units.lookup_eq, h.units.size, h.unitsUsed_eq]
  cases r'.units.lookup key with
  | found i => exact ⟨h, rfl⟩
  | vacant vacant =>
    cases vacant with
    | none => exact ⟨h, rfl⟩
    | some i => exact ⟨h.setUnits (h.units.place i key CallStats.zero) _, rfl⟩

theorem Matches.removeUnit (h : r.Matches r') (i : Nat) : (r.removeUnit i).Matches (r'.removeUnit i) := by
  unfold Region.removeUnit
  rw [h.units.isUsed_eq, h.unitsUsed_eq]
  split_ifs
  · exact h.setUnits (h.units.remove i) _
  · exact h

theorem Matches.clearUnits (h : r.Matches r') : r.clearUnits.Matches r'.clearUnits := h.setUnits h.units.clear 0

theorem Matches.writeStats (h : r.Matches r') (i : Nat) (stats : CallStats) :
    (r.writeStats i stats).Matches (r'.writeStats i stats) :=
  ⟨h.header, h.chunks, h.units.write i stats⟩

end Region

/-! ### Operations -/

/-- What operations on two regions left behind: regions that are alike, and the same answer. -/
structure Access.Matches {α : Type} (a b : Access α) : Prop where
  region : a.region.Matches b.region
  answer : a.answer = b.answer

namespace Region

variable {r r' q : Region} {o o' : Owner}

/-- Two operations that stop, if at all, for the same sum that does not fit. -/
abbrev Together {α : Type} (x y : Except Fault (Access α)) : Prop := GoAlike Access.Matches (· = .addOverflow) x y

theorem Matches.withChunk {α : Type} (h : r.Matches r') {i : Nat} (hw : o.CanTake (r.chunks.get i).mutex)
    (hw' : o'.CanTake (r'.chunks.get i).mutex) {body : Region → Except Fault (Region × α)}
    (hbody : ∀ q q', q.Matches q' → GoAlike MatchesWith (· = .addOverflow) (body q) (body q')) :
    Together (r.withChunk o i body) (r'.withChunk o' i body) := by
  obtain ⟨retired, htake⟩ := hw
  obtain ⟨retired', htake'⟩ := hw'
  unfold Region.withChunk
  rw [htake, htake']
  refine (hbody _ _ (h.relock i o.id o'.id)).bind fun a b hab => .ok ⟨?_, hab.answer⟩
  exact hab.region.relock i 0 0

theorem Matches.withUnit {α : Type} (h : r.Matches r') {i : Nat} (hw : o.CanTake (r.units.get i).mutex)
    (hw' : o'.CanTake (r'.units.get i).mutex) {body : Region → Except Fault (Region × α)}
    (hbody : ∀ q q', q.Matches q' → GoAlike MatchesWith (· = .addOverflow) (body q) (body q')) :
    Together (r.withUnit o i body) (r'.withUnit o' i body) := by
  obtain ⟨retired, htake⟩ := hw
  obtain ⟨retired', htake'⟩ := hw'
  unfold Region.withUnit
  rw [htake, htake']
  refine (hbody _ _ (h.relockUnit i o.id o'.id)).bind fun a b hab => .ok ⟨?_, hab.answer⟩
  exact hab.region.relockUnit i 0 0

theorem Matches.insertChunk (h : r.Matches r') (id : Identity) (number : ChunkNumber) :
    MatchesWith (r.insertChunk id number) (r'.insertChunk id number) := by
  have hinsert := h.insert (.new id number)
  unfold Region.insertChunk
  dsimp only
  cases hr : r.insert (.new id number) with
  | mk r₁ out =>
    cases hr' : r'.insert (.new id number) with
    | mk r₁' out' =>
      rw [hr, hr'] at hinsert
      obtain ⟨hregion, rfl : out = out'⟩ := hinsert
      cases out with
      | error e => exact ⟨hregion, rfl⟩
      | ok i =>
        refine ⟨hregion, ?_⟩
        show Except.ok (Chunk.mk _ (r₁.page i)) = Except.ok (Chunk.mk _ (r₁'.page i))
        rw [Matches.page_eq hregion]

theorem Matches.createChunks (h : r.Matches r') (pages : List (List Record)) (key : ChunkKey) (created : List Nat) :
    GoAlike MatchesWith (· = .addOverflow) (createChunks pages key created r) (createChunks pages key created r') := by
  induction pages generalizing r r' key created with
  | nil => exact .ok ⟨h, rfl⟩
  | cons page pages ih =>
    have hinsert := h.insert key
    unfold Region.createChunks
    cases hr : r.insert key with
    | mk r₁ out =>
      cases hr' : r'.insert key with
      | mk r₁' out' =>
        rw [hr, hr'] at hinsert
        obtain ⟨hregion, rfl : out = out'⟩ := hinsert
        cases out with
        | error e => exact .ok ⟨Matches.removeAll hregion created, rfl⟩
        | ok i =>
          refine (GoAlike.of_endsIn (endsIn_next key)).bind fun next _ hnext => ?_
          subst hnext
          exact ih (Matches.writePage hregion i (fillPage page)) next (i :: created)

theorem Matches.mergedPages (h : r.Matches r') (page : List Record) (pages : List (List Record)) (key : ChunkKey)
    (i : Nat) : GoAlike Eq OnlySums (r.mergedPages page pages key i) (r'.mergedPages page pages key i) := by
  induction pages generalizing page key i with
  | nil =>
    unfold Region.mergedPages
    rw [h.page_eq]
    refine (GoAlike.of_endsIn (endsIn_mergePage (r'.page i) page)).bind fun merged _ hmerged => ?_
    subst hmerged
    refine (GoAlike.of_endsIn (onlySums_ofFault (endsIn_next key))).bind fun next _ hnext => ?_
    subst hnext
    rw [h.find?_eq]
    split_ifs
    · exact .error fun _ hf => by cases hf
    · exact .ok rfl
  | cons page' pages ih =>
    unfold Region.mergedPages
    rw [h.page_eq]
    refine (GoAlike.of_endsIn (endsIn_mergePage (r'.page i) page)).bind fun merged _ hmerged => ?_
    subst hmerged
    refine (GoAlike.of_endsIn (onlySums_ofFault (endsIn_next key))).bind fun next _ hnext => ?_
    subst hnext
    rw [h.find?_eq]
    cases r'.find? next with
    | none => exact .error fun _ hf => by cases hf
    | some j =>
      refine (ih page' next j).bind fun rest _ hrest => ?_
      subst hrest
      exact .ok rfl

theorem Matches.writePages (h : r.Matches r') (writes : List (Nat × List Record)) :
    (r.writePages writes).Matches (r'.writePages writes) := by
  unfold Region.writePages
  induction writes generalizing r r' with
  | nil => exact h
  | cons w writes ih => exact ih (h.writePage w.1 w.2)

theorem Matches.mergeInto (h : r.Matches r') (records : List Record) (key : ChunkKey) (i : Nat) :
    GoAlike MatchesWith (· = .addOverflow) (mergeInto records key i r) (mergeInto records key i r') := by
  unfold Region.mergeInto
  cases pagesOf records with
  | nil => exact .ok ⟨h, rfl⟩
  | cons page pages =>
    have hmerged := h.mergedPages page pages key i
    dsimp only
    generalize r.mergedPages page pages key i = x at hmerged ⊢
    generalize r'.mergedPages page pages key i = y at hmerged ⊢
    cases hmerged with
    | @ok writes _ hwrites =>
      subst hwrites
      exact .ok ⟨h.writePages writes, rfl⟩
    | @error stop hstop =>
      cases stop with
      | error e => exact .ok ⟨h, rfl⟩
      | fault f => exact .error (hstop f rfl)

theorem Matches.fold (h : r.Matches r') (hr : r.Takeable o) (hr' : r'.Takeable o') (id : Identity)
    (records : List Record) : Together (r.fold o id records) (r'.fold o' id records) := by
  unfold Region.fold
  rw [h.find?_eq]
  cases r'.find? (.first id) with
  | some i => exact h.withChunk (hr.chunk i) (hr'.chunk i) fun q q' hq => hq.mergeInto records (.first id) i
  | none =>
    exact (h.createChunks (pagesOf records) (.first id) []).bind fun a b hab => .ok ⟨hab.region, hab.answer⟩

theorem Matches.findChunk (h : r.Matches r') (hr : r.Takeable o) (hr' : r'.Takeable o') (id : Identity)
    (number : ChunkNumber) : Together (r.findChunk o id number) (r'.findChunk o' id number) := by
  unfold Region.findChunk
  dsimp only
  rw [h.find?_eq, h.find?_eq]
  cases r'.find? (.new id number) with
  | none => exact .ok ⟨h, rfl⟩
  | some i =>
    dsimp only
    cases if number = 1 then some i else r'.find? (.first id) with
    | none => exact .ok ⟨h, rfl⟩
    | some first =>
      refine h.withChunk (hr.chunk first) (hr'.chunk first) fun q q' hq => .ok ⟨hq, ?_⟩
      show some (Chunk.mk _ (q.page i)) = some (Chunk.mk _ (q'.page i))
      rw [hq.page_eq]

theorem Matches.chainRecords (h : r.Matches r') (fuel : Nat) (key : ChunkKey) (i : Nat) :
    GoAlike Eq (· = .addOverflow) (r.chainRecords fuel key i) (r'.chainRecords fuel key i) := by
  induction fuel generalizing key i with
  | zero => exact .ok rfl
  | succ fuel ih =>
    unfold Region.chainRecords
    refine (GoAlike.of_endsIn (endsIn_next key)).bind fun next _ hnext => ?_
    subst hnext
    rw [h.find?_eq, h.page_eq]
    cases r'.find? next with
    | none => exact .ok rfl
    | some j =>
      refine (ih next j).bind fun rest _ hrest => ?_
      subst hrest
      exact .ok rfl

theorem Matches.readRecords (h : r.Matches r') (hr : r.Takeable o) (hr' : r'.Takeable o') (id : Identity) :
    Together (r.readRecords o id) (r'.readRecords o' id) := by
  unfold Region.readRecords
  generalize chunkNumberBound = fuel
  rw [h.find?_eq]
  cases r'.find? (.first id) with
  | none => exact .ok ⟨h, rfl⟩
  | some i =>
    refine h.withChunk (hr.chunk i) (hr'.chunk i) fun q q' hq => ?_
    refine (hq.chainRecords fuel (.first id) i).bind fun records _ hrecords => ?_
    subst hrecords
    exact .ok ⟨hq, rfl⟩

theorem Matches.dump_eq (h : r.Matches r') : r.dump = r'.dump := by
  unfold dump
  rw [h.chunks.entries_eq]

theorem Matches.info_eq (h : r.Matches r') (shared : Bool) : r.info shared = r'.info shared := by
  obtain ⟨owner, hheader⟩ := h.header
  unfold info
  rw [h.layout_eq, hheader]
  rfl

theorem Matches.removeChain (h : r.Matches r') (fuel : Nat) (key : ChunkKey) (removed : Nat) :
    GoAlike MatchesWith (· = .addOverflow) (removeChain fuel key removed r) (removeChain fuel key removed r') := by
  induction fuel generalizing r r' key removed with
  | zero => exact .ok ⟨h, rfl⟩
  | succ fuel ih =>
    unfold Region.removeChain
    rw [h.find?_eq]
    cases r'.find? key with
    | none => exact .ok ⟨h, rfl⟩
    | some i =>
      refine (GoAlike.of_endsIn (endsIn_next key)).bind fun next _ hnext => ?_
      subst hnext
      exact ih (h.remove i) next (removed + 1)

theorem Matches.reset (h : r.Matches r') (scope : ResetScope) :
    GoAlike MatchesWith (· = .addOverflow) (r.reset scope) (r'.reset scope) := by
  cases scope with
  | all => exact .ok ⟨h.clear, congrArg UInt64.toNat h.used_eq⟩
  | incarnation id => exact h.removeChain chunkNumberBound (.first id) 0
  | unit key =>
    unfold Region.reset
    dsimp only
    rw [h.chunks.indices_eq]
    exact .ok ⟨h.removeAll _, rfl⟩

theorem Matches.recordCall (h : r.Matches r') (hr : r.Takeable o) (hr' : r'.Takeable o') (key : UnitKey)
    (elapsed : Counter) (isError : Bool) :
    Together (r.recordCall o key elapsed isError) (r'.recordCall o' key elapsed isError) := by
  unfold Region.recordCall
  rw [h.findUnit?_eq]
  cases r'.findUnit? key with
  | some i =>
    refine h.withUnit (hr.unit i) (hr'.unit i) fun q q' hq => ?_
    rw [hq.stats_eq]
    refine (GoAlike.of_endsIn ((q'.stats i).endsIn_record elapsed isError)).bind fun stats _ hstats => ?_
    subst hstats
    exact .ok ⟨hq.writeStats i stats, rfl⟩
  | none =>
    have hinsert := h.insertUnit key
    dsimp only
    cases hins : r.insertUnit key with
    | mk r₁ out =>
      cases hins' : r'.insertUnit key with
      | mk r₁' out' =>
        rw [hins, hins'] at hinsert
        obtain ⟨hregion, rfl : out = out'⟩ := hinsert
        cases out with
        | error e => exact .ok ⟨hregion, rfl⟩
        | ok i =>
          refine (GoAlike.of_endsIn (CallStats.zero.endsIn_record elapsed isError)).bind fun stats _ hstats => ?_
          subst hstats
          exact .ok ⟨Matches.writeStats hregion i stats, rfl⟩

theorem Matches.summary? (h : r.Matches r') (hr : r.Takeable o) (hr' : r'.Takeable o') (key : UnitKey) :
    Together (r.summary? o key) (r'.summary? o' key) := by
  unfold Region.summary?
  rw [h.findUnit?_eq]
  cases r'.findUnit? key with
  | none => exact .ok ⟨h, rfl⟩
  | some i =>
    refine h.withUnit (hr.unit i) (hr'.unit i) fun q q' hq => .ok ⟨hq, ?_⟩
    show some ((q.stats i).summary key) = some ((q'.stats i).summary key)
    rw [hq.stats_eq]

theorem Matches.summariesAt (h : r.Matches r') (hr : r.Takeable o) (hr' : r'.Takeable o') (slots : List Nat) :
    Together (summariesAt o slots r) (summariesAt o' slots r') := by
  induction slots generalizing r r' with
  | nil => exact .ok ⟨h, rfl⟩
  | cons i slots ih =>
    unfold Region.summariesAt
    have hhere : Together
        (r.withUnit o i fun q => .ok (q, (q.units.get i).key?.map fun key => (q.stats i).summary key))
        (r'.withUnit o' i fun q => .ok (q, (q.units.get i).key?.map fun key => (q.stats i).summary key)) := by
      refine h.withUnit (hr.unit i) (hr'.unit i) fun q q' hq => .ok ⟨hq, ?_⟩
      show (q.units.get i).key?.map _ = (q'.units.get i).key?.map _
      rw [(hq.units.slot i).key?_eq, hq.stats_eq]
    -- the locks of the slots to come can be taken still
    have hkeeps : ∀ {p : Owner} {q : Region} {access : Access (Option UnitSummary)}, q.Takeable p →
        (q.withUnit p i fun q => .ok (q, (q.units.get i).key?.map fun key => (q.stats i).summary key)) = .ok access →
        access.region.Takeable p := by
      intro p q access hq hrun
      refine hq.of_frame (withUnit_moves (A := fun _ => True) hrun fun _ _ hbody => ?_).frame
      cases hbody
      exact .refl _
    refine (hhere.and_ok (fun _ => hkeeps hr) fun _ => hkeeps hr').bind fun a b hab => ?_
    obtain ⟨⟨hregion, hanswer⟩, ha, hb⟩ := hab
    have hrest : Together
        (do
          let rest ← Region.summariesAt o slots a.region
          return rest.map (a.answer.toList ++ ·))
        (do
          let rest ← Region.summariesAt o' slots b.region
          return rest.map (b.answer.toList ++ ·)) := by
      refine (ih hregion ha hb).bind fun c d hcd => .ok ⟨hcd.region, ?_⟩
      show a.answer.toList ++ c.answer = b.answer.toList ++ d.answer
      rw [hanswer, hcd.answer]
    exact hrest.bind fun c d hcd => .ok ⟨hcd.region, hcd.answer⟩

theorem Matches.summaries (h : r.Matches r') (hr : r.Takeable o) (hr' : r'.Takeable o') :
    Together (r.summaries o) (r'.summaries o') := by
  unfold Region.summaries
  rw [h.units.indices_eq]
  refine (h.summariesAt hr hr' _).bind fun a b hab => .ok ⟨hab.region, ?_⟩
  exact congrArg (fun list => list.mergeSort UnitSummary.before) hab.answer

theorem Matches.summariesOf (h : r.Matches r') (hr : r.Takeable o) (hr' : r'.Takeable o') (db : UInt32) :
    Together (r.summariesOf o db) (r'.summariesOf o' db) := by
  unfold Region.summariesOf
  refine (h.summaries hr hr').bind fun a b hab => .ok ⟨hab.region, ?_⟩
  exact congrArg (fun list => list.filter fun s => s.ownerDb == db) hab.answer

theorem Matches.resetStats (h : r.Matches r') (unit : Option UnitKey) :
    MatchesWith (r.resetStats unit) (r'.resetStats unit) := by
  cases unit with
  | none => exact ⟨h.clearUnits, congrArg UInt64.toNat h.unitsUsed_eq⟩
  | some key =>
    unfold Region.resetStats
    dsimp only
    rw [h.findUnit?_eq]
    cases r'.findUnit? key with
    | none => exact ⟨h, rfl⟩
    | some i => exact ⟨h.removeUnit i, rfl⟩

end Region

end ProcProfile
