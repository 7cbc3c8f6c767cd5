import Mathlib.Tactic
import ProcProfile.Proofs.Region.Tables
import ProcProfile.Region.Profiles

/-!
# A region as a map of chunks

Seen from outside, a region is a map from chunk keys to pages of records.  `chunk?` is this map, and the
operations on chunk slots are updates of it.  Where the chunks stand in the table does not show in it.

* `Settled`: a sound region of which no lock is taken;
* `chunk?`, `free`: the chunks of a region, and the number of slots left for more;
* `insert_room`, `chunk?_writePage`, `removedFrom_foldl`: the operations through this view;
* `Same`: two regions with the same chunks in the same slots.
-/

namespace ProcProfile

namespace Region

/-- A sound region of which no lock is taken. -/
structure Settled (r : Region) : Prop where
  sound : r.Sound
  chunk_unlocked : ∀ i, r.chunks.isUsed i = true → (r.chunks.get i).mutex = 0
  unit_unlocked : ∀ i, r.units.isUsed i = true → (r.units.get i).mutex = 0

theorem settled_create (capacity unitCapacity : UInt64) : (create capacity unitCapacity).Settled where
  sound := sound_create capacity unitCapacity
  chunk_unlocked i hi := absurd ⟨hi, rfl⟩ (Table.not_holds_new capacity.toNat i _)
  unit_unlocked i hi := absurd ⟨hi, rfl⟩ (Table.not_holds_new unitCapacity.toNat i _)

/-- The records of a chunk, if the region has it. -/
def chunk? (r : Region) (key : ChunkKey) : Option (List Record) := (r.find? key).map r.page

/-- How many chunks there is room for. -/
def free (r : Region) : Nat := r.chunks.size - r.chunks.usedSlots.card

variable {r : Region}

theorem chunk?_eq_some_iff (h : r.Sound) {key : ChunkKey} {records : List Record} :
    r.chunk? key = some records ↔ ∃ i, r.chunks.Holds i key ∧ r.page i = records := by
  rw [chunk?, Option.map_eq_some_iff]
  exact exists_congr fun i => and_congr_left' (Table.find?_eq_some_iff h.chunks.sound)

theorem chunk?_eq_none_iff (h : r.Sound) {key : ChunkKey} :
    r.chunk? key = none ↔ ∀ i, ¬ r.chunks.Holds i key := by
  rw [chunk?, Option.map_eq_none_iff]
  exact Table.find?_eq_none_iff h.chunks.sound

theorem chunk?_of_holds (h : r.Sound) {key : ChunkKey} {i : Nat} (hi : r.chunks.Holds i key) :
    r.chunk? key = some (r.page i) := (chunk?_eq_some_iff h).2 ⟨i, hi, rfl⟩

/-- The chunks of two regions agree where the same slots hold the key and the same records. -/
theorem chunk?_congr {r' : Region} (h : r.Sound) (h' : r'.Sound) {key : ChunkKey}
    (hholds : ∀ i, r'.chunks.Holds i key ↔ r.chunks.Holds i key)
    (hpage : ∀ i, r.chunks.Holds i key → r'.page i = r.page i) : r'.chunk? key = r.chunk? key := by
  cases hc : r.chunk? key with
  | none =>
    rw [chunk?_eq_none_iff h] at hc
    exact (chunk?_eq_none_iff h').2 fun i hi => hc i ((hholds i).1 hi)
  | some records =>
    obtain ⟨i, hi, rfl⟩ := (chunk?_eq_some_iff h).1 hc
    exact (chunk?_eq_some_iff h').2 ⟨i, (hholds i).2 hi, hpage i hi⟩

theorem chunk?_create (capacity unitCapacity : UInt64) (key : ChunkKey) :
    (create capacity unitCapacity).chunk? key = none :=
  (chunk?_eq_none_iff (sound_create _ _)).2 fun i => Table.not_holds_new capacity.toNat i key

theorem free_create (capacity unitCapacity : UInt64) :
    (create capacity unitCapacity).free = capacity.toNat := by
  simp [free, create]

theorem card_usedSlots_add_free (r : Region) : r.chunks.usedSlots.card + r.free = r.chunks.size := by
  have := r.chunks.card_usedSlots_le
  unfold free
  omega

/-! ### Rewriting a page -/

theorem usedSlots_eq_of_holds {t t' : Table ChunkKey Page} (h : ∀ i key, t'.Holds i key ↔ t.Holds i key) :
    t'.usedSlots = t.usedSlots := by
  ext i
  rw [Table.mem_usedSlots, Table.mem_usedSlots]
  exact ⟨fun hi => ((h i _).1 ⟨hi, rfl⟩).1, fun hi => ((h i _).2 ⟨hi, rfl⟩).1⟩

theorem page_writePage {i : Nat} (hi : r.chunks.isUsed i = true) (records : List Record) (j : Nat) :
    (r.writePage i records).page j = if i = j then records else r.page j := by
  unfold writePage page
  rw [Table.get_write]
  have hlt := Table.isUsed_lt hi
  by_cases hij : i = j
  · simp [hij, hij ▸ hlt]
  · simp [hij]

/-- Two regions that differ in nothing but records. -/
structure Rewritten (r r' : Region) : Prop where
  sound : r'.Sound
  holds : ∀ i key, r'.chunks.Holds i key ↔ r.chunks.Holds i key
  mutex : ∀ i, (r'.chunks.get i).mutex = (r.chunks.get i).mutex
  size : r'.chunks.size = r.chunks.size
  units : r'.units = r.units
  header : r'.header = r.header

theorem Rewritten.refl (h : r.Sound) : Rewritten r r := ⟨h, fun _ _ => .rfl, fun _ => rfl, rfl, rfl, rfl⟩

theorem Rewritten.trans {r' r'' : Region} (h : Rewritten r r') (h' : Rewritten r' r'') : Rewritten r r'' :=
  ⟨h'.sound, fun i key => (h'.holds i key).trans (h.holds i key), fun i => (h'.mutex i).trans (h.mutex i),
    h'.size.trans h.size, h'.units.trans h.units, h'.header.trans h.header⟩

theorem Rewritten.settled {r' : Region} (h : Rewritten r r') (hs : r.Settled) : r'.Settled where
  sound := h.sound
  chunk_unlocked i hi := by
    rw [h.mutex]
    exact hs.chunk_unlocked i ((h.holds i _).1 ⟨hi, rfl⟩).1
  unit_unlocked := by
    rw [h.units]
    exact hs.unit_unlocked

theorem Rewritten.free_eq {r' : Region} (h : Rewritten r r') : r'.free = r.free := by
  rw [free, free, h.size, usedSlots_eq_of_holds h.holds]

theorem rewritten_writePage (h : r.Sound) (i : Nat) (records : List Record) :
    Rewritten r (r.writePage i records) where
  sound := h.writePage i records
  holds j key := r.chunks.holds_write i _ j key
  mutex j := by
    unfold Region.writePage
    rw [Table.get_write]
    split_ifs <;> rfl
  size := Table.size_write ..
  units := rfl
  header := rfl

theorem chunk?_writePage (h : r.Sound) {i : Nat} {key : ChunkKey} (hi : r.chunks.Holds i key)
    (records : List Record) :
    (r.writePage i records).chunk? = Function.update r.chunk? key (some records) := by
  funext k
  by_cases hk : k = key
  · subst hk
    rw [Function.update_self]
    refine (chunk?_eq_some_iff (h.writePage i records)).2 ⟨i, (r.chunks.holds_write i _ i k).2 hi, ?_⟩
    rw [page_writePage hi.1, if_pos rfl]
  · rw [Function.update_of_ne hk]
    refine chunk?_congr h (h.writePage i records) (fun j => r.chunks.holds_write i _ j k) fun j hj => ?_
    rw [page_writePage hi.1, if_neg]
    rintro rfl
    exact hk (hj.key_unique hi)

/-! ### Inserting and removing -/

/-- What a region is after a new chunk went to a slot of its own. -/
structure Inserted (r : Region) (key : ChunkKey) (i : Nat) (r' : Region) : Prop where
  settled : r'.Settled
  fresh : ¬ r.chunks.isUsed i = true
  holds : ∀ j k, r'.chunks.Holds j k ↔ (j = i ∧ k = key) ∨ r.chunks.Holds j k
  page_self : r'.page i = Page.unused.records
  page : ∀ j ≠ i, r'.page j = r.page j
  size : r'.chunks.size = r.chunks.size
  units : r'.units = r.units
  header : r'.header = { r.header with used := r.header.used + 1 }

/-- A chunk that the region does not have, while there is room, goes to a slot of its own. -/
theorem insert_room (h : r.Settled) {key : ChunkKey} (habsent : r.chunk? key = none)
    (hroom : 0 < r.free) : ∃ i r', r.insert key = (r', .ok i) ∧ Inserted r key i r' := by
  rw [chunk?_eq_none_iff h.sound] at habsent
  rcases insert_cases h.sound key with ⟨i, hi, -⟩ | ⟨-, hall, -⟩ | ⟨-, i, hfirst, he⟩
  · exact absurd hi (habsent i)
  · have := r.chunks.card_usedSlots_eq_iff.2 hall
    unfold free at hroom
    omega
  · have hlt := hfirst.lt
    have hnew := hfirst.not_isUsed
    have hcases : ∀ j k, (r.chunks.place i key Page.unused).Holds j k ↔
        (j = i ∧ k = key) ∨ r.chunks.Holds j k := by
      intro j k
      rw [Table.holds_place _ hlt]
      split_ifs with hij
      · subst hij
        exact ⟨fun hk => .inl ⟨rfl, hk.symm⟩, fun hor => hor.elim (fun he => he.2.symm)
          fun hheld => absurd hheld.1 hnew⟩
      · exact ⟨.inr, fun hor => hor.elim (fun he => absurd he.1.symm hij) id⟩
    refine ⟨i, _, he, ⟨?_, fun j hj => ?_, h.unit_unlocked⟩, hnew, hcases, ?_, fun j hj => ?_,
      Table.size_place .., rfl, rfl⟩
    · have := h.sound.insert key
      rwa [he] at this
    · rw [Table.get_place _ hlt]
      split_ifs with hij
      · rfl
      · refine h.chunk_unlocked j ?_
        rcases (hcases j _).1 ⟨hj, rfl⟩ with hk | hk
        · exact absurd hk.1.symm hij
        · exact hk.1
    · unfold Region.page
      rw [Table.get_place _ hlt, if_pos rfl]
    · unfold Region.page
      rw [Table.get_place _ hlt, if_neg (Ne.symm hj)]

/-- Without room a new chunk is refused. -/
theorem insert_full (h : r.Sound) {key : ChunkKey} (habsent : r.chunk? key = none) (hfull : r.free = 0) :
    r.insert key = (r, .error (.exhausted r.capacity)) := by
  rw [chunk?_eq_none_iff h] at habsent
  rcases insert_cases h key with ⟨i, hi, -⟩ | ⟨-, -, he⟩ | ⟨-, i, hfirst, -⟩
  · exact absurd hi (habsent i)
  · exact he
  · have hall := (r.chunks.card_usedSlots_eq_iff).1 (by have := r.card_usedSlots_add_free; omega)
    exact absurd (hall i hfirst.lt) hfirst.not_isUsed

theorem Inserted.chunk?_eq {key : ChunkKey} {i : Nat} {r' : Region} (hi : Inserted r key i r')
    (h : r.Sound) (habsent : r.chunk? key = none) :
    r'.chunk? = Function.update r.chunk? key (some Page.unused.records) := by
  funext k
  by_cases hk : k = key
  · subst hk
    rw [Function.update_self]
    exact (chunk?_eq_some_iff hi.settled.sound).2 ⟨i, (hi.holds i k).2 (.inl ⟨rfl, rfl⟩), hi.page_self⟩
  · rw [Function.update_of_ne hk]
    refine chunk?_congr h hi.settled.sound (fun j => ?_) fun j hj => hi.page j ?_
    · exact (hi.holds j k).trans ⟨fun hor => hor.resolve_left fun he => hk he.2, .inr⟩
    · rintro rfl
      exact hi.fresh hj.1

theorem Inserted.free_eq {key : ChunkKey} {i : Nat} {r' : Region} (hi : Inserted r key i r') :
    r'.free + 1 = r.free := by
  have hused : r'.chunks.usedSlots = Insert.insert i r.chunks.usedSlots := by
    ext j
    rw [Finset.mem_insert, Table.mem_usedSlots, Table.mem_usedSlots]
    constructor
    · exact fun hj => ((hi.holds j _).1 ⟨hj, rfl⟩).imp And.left And.left
    · rintro (rfl | hj)
      · exact ((hi.holds j key).2 (.inl ⟨rfl, rfl⟩)).1
      · exact ((hi.holds j _).2 (.inr ⟨hj, rfl⟩)).1
  have hcard := Finset.card_insert_of_notMem fun hm => hi.fresh (Table.mem_usedSlots.1 hm)
  have hle := r'.chunks.card_usedSlots_le
  rw [hused, hcard, hi.size] at hle
  rw [free, free, hi.size, hused, hcard]
  omega

theorem page_remove (r : Region) (i j : Nat) : (r.remove i).page j = r.page j := by
  unfold page
  rw [chunks_remove, Table.get_remove]
  split_ifs <;> rfl

theorem mutex_remove (r : Region) (i j : Nat) :
    ((r.remove i).chunks.get j).mutex = (r.chunks.get j).mutex := by
  rw [chunks_remove, Table.get_remove]
  split_ifs <;> rfl

theorem units_remove (r : Region) (i : Nat) : (r.remove i).units = r.units := by
  unfold remove
  split_ifs <;> rfl

theorem header_remove (r : Region) (i : Nat) :
    (r.remove i).header = { r.header with used := (r.remove i).header.used } := by
  unfold remove
  split_ifs <;> rfl

theorem size_remove (r : Region) (i : Nat) : (r.remove i).chunks.size = r.chunks.size := by
  rw [chunks_remove, Table.size_remove]

theorem Settled.remove (h : r.Settled) (i : Nat) : (r.remove i).Settled where
  sound := h.sound.remove i
  chunk_unlocked j hj := by
    rw [mutex_remove]
    rw [chunks_remove] at hj
    exact h.chunk_unlocked j ((r.chunks.holds_remove i j _).1 ⟨hj, rfl⟩).2.1
  unit_unlocked := by
    rw [units_remove]
    exact h.unit_unlocked

/-- What is left after the chunks in some slots are removed. -/
structure RemovedFrom (r : Region) (slots : List Nat) (r' : Region) : Prop where
  settled : r'.Settled
  holds : ∀ i key, r'.chunks.Holds i key ↔ r.chunks.Holds i key ∧ i ∉ slots
  page : ∀ i, r'.page i = r.page i
  size : r'.chunks.size = r.chunks.size
  units : r'.units = r.units
  header : r'.header = { r.header with used := r'.header.used }

theorem removedFrom_foldl (h : r.Settled) (slots : List Nat) :
    RemovedFrom r slots (slots.foldl Region.remove r) := by
  induction slots generalizing r with
  | nil => exact ⟨h, fun i key => by simp, fun _ => rfl, rfl, rfl, rfl⟩
  | cons i slots ih =>
    obtain ⟨hset, hholds, hpage, hsize, hunits, hheader⟩ := ih (h.remove i)
    refine ⟨hset, fun j key => ?_, fun j => ?_, ?_, ?_, ?_⟩
    · rw [List.foldl_cons, hholds, chunks_remove, Table.holds_remove, List.mem_cons, not_or]
      constructor
      · rintro ⟨⟨hne, hj⟩, hnot⟩
        exact ⟨hj, Ne.symm hne, hnot⟩
      · rintro ⟨hj, hne, hnot⟩
        exact ⟨⟨Ne.symm hne, hj⟩, hnot⟩
    · rw [List.foldl_cons, hpage, page_remove]
    · rw [List.foldl_cons, hsize, size_remove]
    · rw [List.foldl_cons, hunits, units_remove]
    · rw [List.foldl_cons, hheader, header_remove]

/-- The chunks that are left, if those in the removed slots are told by their keys. -/
theorem RemovedFrom.chunk?_eq {slots : List Nat} {r' : Region} (h : RemovedFrom r slots r') (hs : r.Sound)
    (p : ChunkKey → Prop) [DecidablePred p]
    (hp : ∀ i key, r.chunks.Holds i key → (i ∈ slots ↔ p key)) (key : ChunkKey) :
    r'.chunk? key = if p key then none else r.chunk? key := by
  split_ifs with hkey
  · refine (chunk?_eq_none_iff h.settled.sound).2 fun i hi => ?_
    obtain ⟨hi, hnot⟩ := (h.holds i key).1 hi
    exact hnot ((hp i key hi).2 hkey)
  · refine chunk?_congr hs h.settled.sound (fun i => ?_) fun i _ => h.page i
    rw [h.holds]
    exact and_iff_left_of_imp fun hi hmem => hkey ((hp i key hi).1 hmem)

theorem Settled.clear (h : r.Settled) : r.clear.Settled where
  sound := h.sound.clear
  chunk_unlocked i hi := absurd ⟨hi, rfl⟩ (r.chunks.not_holds_clear i _)
  unit_unlocked := h.unit_unlocked

theorem chunk?_clear (h : r.Sound) (key : ChunkKey) : r.clear.chunk? key = none :=
  (chunk?_eq_none_iff h.clear).2 fun i => r.chunks.not_holds_clear i key

/-! ### Taking a lock -/

/-- A region with another word in the lock of a chunk slot. -/
def relock (r : Region) (i : Nat) (word : UInt32) : Region :=
  { r with chunks := r.chunks.setMutex i word }

theorem holds_relock (r : Region) (i : Nat) (word : UInt32) (j : Nat) (key : ChunkKey) :
    (r.relock i word).chunks.Holds j key ↔ r.chunks.Holds j key := r.chunks.holds_setMutex i word j key

theorem page_relock (r : Region) (i : Nat) (word : UInt32) (j : Nat) :
    (r.relock i word).page j = r.page j := by
  unfold page relock
  rw [Table.get_setMutex]
  split_ifs <;> rfl

theorem mutex_relock {i : Nat} (hi : r.chunks.isUsed i = true) (word : UInt32) (j : Nat) :
    ((r.relock i word).chunks.get j).mutex = if i = j then word else (r.chunks.get j).mutex := by
  unfold relock
  rw [Table.get_setMutex]
  have hlt := Table.isUsed_lt hi
  by_cases hij : i = j
  · simp [hij, hij ▸ hlt]
  · simp [hij]

theorem size_relock (r : Region) (i : Nat) (word : UInt32) :
    (r.relock i word).chunks.size = r.chunks.size := Table.size_setMutex ..

theorem Sound.relock (h : r.Sound) (i : Nat) (word : UInt32) : (r.relock i word).Sound where
  chunks := h.chunks.setMutex i word
  units := h.units

theorem chunk?_relock (h : r.Sound) (i : Nat) (word : UInt32) : (r.relock i word).chunk? = r.chunk? :=
  funext fun key => chunk?_congr h (h.relock i word) (fun j => r.holds_relock i word j key) fun j _ =>
    r.page_relock i word j

/-- Giving a lock back leaves only records changed. -/
theorem Rewritten.unlock {r' : Region} {i : Nat} {word : UInt32} (h : Rewritten (r.relock i word) r')
    (hs : r.Settled) (hi : r.chunks.isUsed i = true) : Rewritten r (r'.relock i 0) where
  sound := h.sound.relock i 0
  holds j key := (r'.holds_relock i 0 j key).trans ((h.holds j key).trans (r.holds_relock i word j key))
  mutex j := by
    have hi' : r'.chunks.isUsed i = true := ((h.holds i _).2 ((r.holds_relock i word i _).2 ⟨hi, rfl⟩)).1
    rw [mutex_relock hi', h.mutex, mutex_relock hi]
    split_ifs with hij
    · rw [← hij, hs.chunk_unlocked i hi]
    · rfl
  size := (r'.size_relock i 0).trans (h.size.trans (r.size_relock i word))
  units := h.units
  header := h.header

/-- Nobody holds a lock of a settled region, so that it is taken at once. -/
theorem withChunk_eq {α : Type} (h : r.Settled) {i : Nat} (hi : r.chunks.isUsed i = true) (o : Owner)
    (body : Region → Except Fault (Region × α)) :
    r.withChunk o i body = (do
      let (r', answer) ← body (r.relock i o.id)
      return ⟨r'.relock i 0, [], answer⟩) := by
  unfold withChunk Owner.take
  rw [h.chunk_unlocked i hi, if_pos rfl]
  rfl

/-! ### Regions with the same chunks -/

/-- Two regions with the same chunks in the same slots and the same call statistics. -/
structure Same (r r' : Region) : Prop where
  settled : r'.Settled
  holds : ∀ i key, r'.chunks.Holds i key ↔ r.chunks.Holds i key
  page : ∀ i key, r.chunks.Holds i key → r'.page i = r.page i
  size : r'.chunks.size = r.chunks.size
  units : r'.units = r.units
  header : r'.header = r.header

theorem Rewritten.same {r' : Region} (h : Rewritten r r') (hs : r.Settled)
    (hpage : ∀ i, r'.page i = r.page i) : Same r r' :=
  ⟨h.settled hs, h.holds, fun i _ _ => hpage i, h.size, h.units, h.header⟩

theorem Same.chunk?_eq {r' : Region} (hs : Same r r') (h : r.Sound) : r'.chunk? = r.chunk? :=
  funext fun key => chunk?_congr h hs.settled.sound (fun i => hs.holds i key) fun i => hs.page i key

end Region

end ProcProfile
