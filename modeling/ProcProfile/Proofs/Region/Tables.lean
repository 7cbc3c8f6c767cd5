import Mathlib.Tactic
import ProcProfile.Proofs.Table
import ProcProfile.Region

/-!
# The two tables of a region

A region keeps chunks and call statistics in two slot tables, and counts the used slots of each in its
header.  The operations on the two tables differ only in what they answer to a key that is present, in
what they put into a new slot and in the error of a full table.  `Part` names these differences, and
`Part.IsMap` says, for either table, that it is a finite map of bounded size.

* `Table.Counted`: a sound table with the counter that belongs to it;
* `Part`, `chunkPart`, `unitPart`, `Part.IsMap`;
* `SlotOp`, `Region.applyAll`: any sequence of operations on both tables;
* `applyAll_isMap`: after every sequence both tables are bounded maps.
-/

namespace ProcProfile

namespace Table

variable {κ ν : Type} [Inhabited κ] [Inhabited ν] [Slotted κ]

/-- A sound table, and a counter that tells the number of its used slots. -/
structure Counted (t : Table κ ν) (used : UInt64) : Prop where
  sound : t.Sound
  size_lt : t.size < 2 ^ 64
  count : used.toNat = t.usedSlots.card

theorem counted_new {n : Nat} (hn : n < 2 ^ 64) : (new n : Table κ ν).Counted 0 :=
  ⟨sound_new n, hn, by simp⟩

variable {t : Table κ ν} {used : UInt64}

theorem Counted.place (h : t.Counted used) {i : Nat} {key : κ} (hfirst : t.FirstFree key 0 (some i))
    (habsent : ∀ j, ¬ t.Holds j key) (value : ν) : (t.place i key value).Counted (used + 1) where
  sound := h.sound.place hfirst habsent value
  size_lt := by simpa using h.size_lt
  count := by
    have hnew : i ∉ t.usedSlots := fun hi => hfirst.not_isUsed (mem_usedSlots.1 hi)
    have hcard : (insert i t.usedSlots).card = t.usedSlots.card + 1 := Finset.card_insert_of_notMem hnew
    -- the new slot is one of the table, so the counter does not pass its last value
    have hle := (t.place i key value).card_usedSlots_le
    rw [usedSlots_place t hfirst.lt, hcard, size_place] at hle
    have hlt := h.size_lt
    rw [usedSlots_place t hfirst.lt, hcard, UInt64.toNat_add, h.count, UInt64.toNat_one,
      Nat.mod_eq_of_lt (by omega)]

theorem Counted.remove (h : t.Counted used) {i : Nat} (hi : t.isUsed i = true) :
    (t.remove i).Counted (used - 1) where
  sound := h.sound.remove i
  size_lt := by simpa using h.size_lt
  count := by
    have hpos : 0 < t.usedSlots.card := Finset.card_pos.2 ⟨i, mem_usedSlots.2 hi⟩
    have hle : (1 : UInt64) ≤ used := by
      rw [UInt64.le_iff_toNat_le, h.count, UInt64.toNat_one]
      omega
    rw [usedSlots_remove, Finset.card_erase_of_mem (mem_usedSlots.2 hi), UInt64.toNat_sub_of_le _ _ hle,
      h.count, UInt64.toNat_one]

theorem Counted.clear (h : t.Counted used) : t.clear.Counted 0 :=
  ⟨.clear t, h.size_lt, by simp⟩

theorem Counted.write (h : t.Counted used) (i : Nat) (value : ν) : (t.write i value).Counted used :=
  ⟨h.sound.write i value, by simpa using h.size_lt, by simpa using h.count⟩

theorem Counted.setMutex (h : t.Counted used) (i : Nat) (word : UInt32) :
    (t.setMutex i word).Counted used :=
  ⟨h.sound.setMutex i word, by simpa using h.size_lt, by simpa using h.count⟩

end Table

/-! ### Either table with its operations -/

/-- One of the two tables of a region, with its counter and its operations. -/
structure Part (κ ν : Type) where
  table : Region → Table κ ν
  used : Region → UInt64
  find? : Region → κ → Option Nat
  insert : Region → κ → Region × Except StoreError Nat
  remove : Region → Nat → Region
  clear : Region → Region
  /-- What a new slot holds. -/
  fresh : ν
  /-- The answer to an insertion of a key that is in a slot already. -/
  present : κ → Nat → Except StoreError Nat
  /-- The error of a table without a free slot. -/
  full : Region → StoreError

/-- The chunks: a key is inserted once, and a new chunk holds unused records. -/
def chunkPart : Part ChunkKey Page where
  table := Region.chunks
  used r := r.header.used
  find? := Region.find?
  insert := Region.insert
  remove := Region.remove
  clear := Region.clear
  fresh := ⟨List.replicate 30 Record.unused⟩
  present key _ := .error (.duplicateChunk key.identity.unitId key.number)
  full r := .exhausted r.chunks.size

/-- The call statistics: a key that is present keeps its slot, and new statistics are all zero. -/
def unitPart : Part UnitKey CallStats where
  table := Region.units
  used r := r.header.unitsUsed
  find? := Region.findUnit?
  insert := Region.insertUnit
  remove := Region.removeUnit
  clear := Region.clearUnits
  fresh := ⟨0, 0, 0, 0, 0, 0⟩
  present _ i := .ok i
  full r := .unitTableFull r.units.size

namespace Part

variable {κ ν : Type} [Inhabited κ] [Inhabited ν]

/-- The table is a finite map of bounded size, and its operations are those of such a map. -/
structure IsMap (T : Part κ ν) (r : Region) : Prop where
  /-- A key stands in one used slot at most. -/
  one_slot : ∀ key i j, (T.table r).Holds i key → (T.table r).Holds j key → i = j
  /-- The search gives the slot that holds the key. -/
  find?_eq_some : ∀ key i, T.find? r key = some i ↔ (T.table r).Holds i key
  /-- The search gives nothing if no slot holds the key. -/
  find?_eq_none : ∀ key, T.find? r key = none ↔ ∀ i, ¬ (T.table r).Holds i key
  /-- A key that is present is not inserted again. -/
  insert_present : ∀ key i, (T.table r).Holds i key → T.insert r key = (r, T.present key i)
  /-- An absent key is refused exactly if every slot is used, and then nothing changes. -/
  insert_full : ∀ key, (∀ i, ¬ (T.table r).Holds i key) →
    ((∃ e, (T.insert r key).2 = .error e) ↔ ∀ i < (T.table r).size, (T.table r).isUsed i = true) ∧
    ((∀ i < (T.table r).size, (T.table r).isUsed i = true) →
      T.insert r key = (r, .error (T.full r)))
  /-- Otherwise it gets a slot that was not used, with fresh contents; every other key keeps its slot
  and what the slot holds. -/
  insert_room : ∀ key, (∀ i, ¬ (T.table r).Holds i key) →
    (∃ i < (T.table r).size, ¬ (T.table r).isUsed i = true) →
    ∃ i, (T.insert r key).2 = .ok i ∧ ¬ (T.table r).isUsed i = true ∧
      (∀ j k, (T.table (T.insert r key).1).Holds j k ↔ (j = i ∧ k = key) ∨ (T.table r).Holds j k) ∧
      ((T.table (T.insert r key).1).get i).value = T.fresh ∧
      ∀ j k, (T.table r).Holds j k → (T.table (T.insert r key).1).get j = (T.table r).get j
  /-- Removing what a slot holds removes that key only. -/
  remove : ∀ i j k, ((T.table (T.remove r i)).Holds j k ↔ j ≠ i ∧ (T.table r).Holds j k) ∧
    (j ≠ i → (T.table (T.remove r i)).get j = (T.table r).get j)
  /-- Nothing is present after clearing. -/
  clear : ∀ i k, ¬ (T.table (T.clear r)).Holds i k
  /-- The header counts the used slots. -/
  used_eq : (T.used r).toNat = (T.table r).usedSlots.card

/-- The operations of a part are those of its table. -/
structure Lawful [Slotted κ] (T : Part κ ν) : Prop where
  find?_eq : ∀ r key, T.find? r key = (T.table r).find? key
  insert_found : ∀ {r key i}, (T.table r).lookup key = .found i → T.insert r key = (r, T.present key i)
  insert_none : ∀ {r key}, (T.table r).lookup key = .vacant none →
    T.insert r key = (r, .error (T.full r))
  insert_some : ∀ {r key i}, (T.table r).lookup key = .vacant (some i) →
    (T.insert r key).2 = .ok i ∧ T.table (T.insert r key).1 = (T.table r).place i key T.fresh
  table_remove : ∀ r i, T.table (T.remove r i) = (T.table r).remove i
  table_clear : ∀ r, T.table (T.clear r) = (T.table r).clear

theorem isMap_of_counted [Slotted κ] [LawfulBEq κ] {T : Part κ ν} (hT : T.Lawful) {r : Region}
    (h : (T.table r).Counted (T.used r)) : T.IsMap r where
  one_slot _ _ _ hi hj := h.sound.unique hi hj
  find?_eq_some key i := by rw [hT.find?_eq, Table.find?_eq_some_iff h.sound]
  find?_eq_none key := by rw [hT.find?_eq, Table.find?_eq_none_iff h.sound]
  insert_present key i hi := by
    rcases Table.lookup_cases h.sound key with ⟨j, hj, hl⟩ | ⟨habsent, -⟩ | ⟨habsent, -⟩
    · rw [hT.insert_found hl, h.sound.unique hj hi]
    · exact absurd hi (habsent i)
    · exact absurd hi (habsent i)
  insert_full key habsent := by
    rcases Table.lookup_cases h.sound key with ⟨j, hj, -⟩ | ⟨-, hall, hl⟩ | ⟨-, j, hfirst, hl⟩
    · exact absurd hj (habsent j)
    · rw [hT.insert_none hl]
      exact ⟨⟨fun _ => hall, fun _ => ⟨_, rfl⟩⟩, fun _ => rfl⟩
    · have hfree : ¬ ∀ i < (T.table r).size, (T.table r).isUsed i = true := fun hall =>
        hfirst.not_isUsed (hall j hfirst.lt)
      refine ⟨⟨fun ⟨e, he⟩ => ?_, fun hall => absurd hall hfree⟩, fun hall => absurd hall hfree⟩
      rw [(hT.insert_some hl).1] at he
      cases he
  insert_room key habsent hroom := by
    rcases Table.lookup_cases h.sound key with ⟨j, hj, -⟩ | ⟨-, hall, -⟩ | ⟨-, i, hfirst, hl⟩
    · exact absurd hj (habsent j)
    · obtain ⟨j, hj, hfree⟩ := hroom
      exact absurd (hall j hj) hfree
    · obtain ⟨hok, htable⟩ := hT.insert_some hl
      have hi := hfirst.lt
      refine ⟨i, hok, hfirst.not_isUsed, fun j k => ?_, ?_, fun j k hj => ?_⟩
      · rw [htable, Table.holds_place _ hi]
        split_ifs with hij
        · subst hij
          exact ⟨fun hk => .inl ⟨rfl, hk.symm⟩, fun hor => hor.elim (fun he => he.2.symm)
            fun hheld => absurd hheld.1 hfirst.not_isUsed⟩
        · exact ⟨.inr, fun hor => hor.elim (fun he => absurd he.1.symm hij) id⟩
      · rw [htable, Table.get_place _ hi, if_pos rfl]
      · rw [htable, Table.get_place _ hi, if_neg]
        rintro rfl
        exact hfirst.not_isUsed hj.1
  remove i j k := by
    rw [hT.table_remove, Table.holds_remove, Table.get_remove]
    refine ⟨and_congr_left' ne_comm, fun hne => if_neg fun hij => hne hij.1.symm⟩
  clear i k := by
    rw [hT.table_clear]
    exact (T.table r).not_holds_clear i k
  used_eq := h.count

end Part

namespace Region

theorem chunks_remove (r : Region) (i : Nat) : (r.remove i).chunks = r.chunks.remove i := by
  unfold remove
  by_cases hu : r.chunks.isUsed i = true
  · rw [if_pos hu]
  · rw [if_neg hu, Table.remove_of_not_isUsed hu]

theorem units_removeUnit (r : Region) (i : Nat) : (r.removeUnit i).units = r.units.remove i := by
  unfold removeUnit
  by_cases hu : r.units.isUsed i = true
  · rw [if_pos hu]
  · rw [if_neg hu, Table.remove_of_not_isUsed hu]

end Region

theorem chunkPart_lawful : chunkPart.Lawful where
  find?_eq _ _ := rfl
  insert_found hl := by simp only [chunkPart, Region.insert] at hl ⊢; rw [hl]
  insert_none hl := by simp only [chunkPart, Region.insert] at hl ⊢; rw [hl]; rfl
  insert_some hl := by simp only [chunkPart, Region.insert] at hl ⊢; rw [hl]; exact ⟨rfl, rfl⟩
  table_remove := Region.chunks_remove
  table_clear _ := rfl

theorem unitPart_lawful : unitPart.Lawful where
  find?_eq _ _ := rfl
  insert_found hl := by simp only [unitPart, Region.insertUnit] at hl ⊢; rw [hl]
  insert_none hl := by simp only [unitPart, Region.insertUnit] at hl ⊢; rw [hl]; rfl
  insert_some hl := by simp only [unitPart, Region.insertUnit] at hl ⊢; rw [hl]; exact ⟨rfl, rfl⟩
  table_remove := Region.units_removeUnit
  table_clear _ := rfl

/-! ### Sound regions -/

namespace Region

/-- Both tables are sound, and the header counts their used slots. -/
structure Sound (r : Region) : Prop where
  chunks : r.chunks.Counted r.header.used
  units : r.units.Counted r.header.unitsUsed

theorem sound_create (capacity unitCapacity : UInt64) : (create capacity unitCapacity).Sound :=
  ⟨Table.counted_new capacity.toNat_lt, Table.counted_new unitCapacity.toNat_lt⟩

/-- What an insertion of a chunk does: it answers an error and changes nothing, or it takes the slot that
the search for the absent key offers. -/
theorem insert_cases {r : Region} (h : r.Sound) (key : ChunkKey) :
    (∃ i, r.chunks.Holds i key ∧
      r.insert key = (r, .error (.duplicateChunk key.identity.unitId key.number))) ∨
    ((∀ i, ¬ r.chunks.Holds i key) ∧ (∀ i < r.chunks.size, r.chunks.isUsed i = true) ∧
      r.insert key = (r, .error (.exhausted r.chunks.size))) ∨
    ((∀ i, ¬ r.chunks.Holds i key) ∧ ∃ i, r.chunks.FirstFree key 0 (some i) ∧
      r.insert key = ({ r with
        header := { r.header with used := r.header.used + 1 }
        chunks := r.chunks.place i key Page.unused }, .ok i)) := by
  rcases Table.lookup_cases h.chunks.sound key with ⟨i, hi, hl⟩ | ⟨habsent, hall, hl⟩ |
    ⟨habsent, i, hfirst, hl⟩
  · exact .inl ⟨i, hi, by rw [insert, hl]⟩
  · exact .inr (.inl ⟨habsent, hall, by rw [insert, hl]; rfl⟩)
  · exact .inr (.inr ⟨habsent, i, hfirst, by rw [insert, hl]⟩)

theorem insertUnit_cases {r : Region} (h : r.Sound) (key : UnitKey) :
    (∃ i, r.units.Holds i key ∧ r.insertUnit key = (r, .ok i)) ∨
    ((∀ i, ¬ r.units.Holds i key) ∧ (∀ i < r.units.size, r.units.isUsed i = true) ∧
      r.insertUnit key = (r, .error (.unitTableFull r.units.size))) ∨
    ((∀ i, ¬ r.units.Holds i key) ∧ ∃ i, r.units.FirstFree key 0 (some i) ∧
      r.insertUnit key = ({ r with
        header := { r.header with unitsUsed := r.header.unitsUsed + 1 }
        units := r.units.place i key CallStats.zero }, .ok i)) := by
  rcases Table.lookup_cases h.units.sound key with ⟨i, hi, hl⟩ | ⟨habsent, hall, hl⟩ |
    ⟨habsent, i, hfirst, hl⟩
  · exact .inl ⟨i, hi, by rw [insertUnit, hl]⟩
  · exact .inr (.inl ⟨habsent, hall, by rw [insertUnit, hl]; rfl⟩)
  · exact .inr (.inr ⟨habsent, i, hfirst, by rw [insertUnit, hl]⟩)

theorem Sound.insert {r : Region} (h : r.Sound) (key : ChunkKey) : (r.insert key).1.Sound := by
  rcases insert_cases h key with ⟨i, -, he⟩ | ⟨-, -, he⟩ | ⟨habsent, i, hfirst, he⟩ <;> rw [he]
  · exact h
  · exact h
  · exact ⟨h.chunks.place hfirst habsent _, h.units⟩

theorem Sound.insertUnit {r : Region} (h : r.Sound) (key : UnitKey) : (r.insertUnit key).1.Sound := by
  rcases insertUnit_cases h key with ⟨i, -, he⟩ | ⟨-, -, he⟩ | ⟨habsent, i, hfirst, he⟩ <;> rw [he]
  · exact h
  · exact h
  · exact ⟨h.chunks, h.units.place hfirst habsent _⟩

theorem Sound.remove {r : Region} (h : r.Sound) (i : Nat) : (r.remove i).Sound := by
  unfold Region.remove
  split_ifs with hu
  · exact ⟨h.chunks.remove hu, h.units⟩
  · exact h

theorem Sound.removeUnit {r : Region} (h : r.Sound) (i : Nat) : (r.removeUnit i).Sound := by
  unfold Region.removeUnit
  split_ifs with hu
  · exact ⟨h.chunks, h.units.remove hu⟩
  · exact h

theorem Sound.clear {r : Region} (h : r.Sound) : r.clear.Sound := ⟨h.chunks.clear, h.units⟩

theorem Sound.clearUnits {r : Region} (h : r.Sound) : r.clearUnits.Sound := ⟨h.chunks, h.units.clear⟩

theorem Sound.writePage {r : Region} (h : r.Sound) (i : Nat) (records : List Record) :
    (r.writePage i records).Sound := ⟨h.chunks.write i _, h.units⟩

theorem Sound.writeStats {r : Region} (h : r.Sound) (i : Nat) (stats : CallStats) :
    (r.writeStats i stats).Sound := ⟨h.chunks, h.units.write i _⟩

/-! ### Any sequence of operations -/

end Region

/-- An operation on one of the two tables.  What a slot holds may be rewritten at any time. -/
inductive SlotOp where
  | insert (key : ChunkKey)
  | remove (i : Nat)
  | clear
  | writePage (i : Nat) (records : List Record)
  | insertUnit (key : UnitKey)
  | removeUnit (i : Nat)
  | clearUnits
  | writeStats (i : Nat) (stats : CallStats)

namespace Region

/-- The region after an operation. -/
def apply (r : Region) : SlotOp → Region
  | .insert key => (r.insert key).1
  | .remove i => r.remove i
  | .clear => r.clear
  | .writePage i records => r.writePage i records
  | .insertUnit key => (r.insertUnit key).1
  | .removeUnit i => r.removeUnit i
  | .clearUnits => r.clearUnits
  | .writeStats i stats => r.writeStats i stats

/-- The region after a sequence of operations. -/
def applyAll (r : Region) (ops : List SlotOp) : Region := ops.foldl apply r

theorem Sound.apply {r : Region} (h : r.Sound) (op : SlotOp) : (r.apply op).Sound := by
  cases op with
  | insert key => exact h.insert key
  | remove i => exact h.remove i
  | clear => exact h.clear
  | writePage i records => exact h.writePage i records
  | insertUnit key => exact h.insertUnit key
  | removeUnit i => exact h.removeUnit i
  | clearUnits => exact h.clearUnits
  | writeStats i stats => exact h.writeStats i stats

theorem Sound.applyAll {r : Region} (h : r.Sound) (ops : List SlotOp) : (r.applyAll ops).Sound := by
  induction ops generalizing r with
  | nil => exact h
  | cons op ops ih => exact ih (h.apply op)

/-- **Each table is a finite map of bounded size**, whatever was done to it and to the other one since
the region was created. -/
theorem applyAll_isMap (capacity unitCapacity : UInt64) (ops : List SlotOp) :
    chunkPart.IsMap ((create capacity unitCapacity).applyAll ops) ∧
      unitPart.IsMap ((create capacity unitCapacity).applyAll ops) := by
  have h := (sound_create capacity unitCapacity).applyAll ops
  exact ⟨Part.isMap_of_counted chunkPart_lawful h.chunks, Part.isMap_of_counted unitPart_lawful h.units⟩

end Region

end ProcProfile
