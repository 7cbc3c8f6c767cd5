import Mathlib.Tactic
import ProcProfile.Contents
import ProcProfile.Proofs.Image
import ProcProfile.Proofs.Table

/-!
# Regions and their bytes

The slots of a table stand one after another in an image, each at its own offset, and the two tables of a region
behind its header.  No two of them overlap, so a region is read from its bytes as it was written; zeros at the end
may be left out.

* `SlotsWritten`, `slotsWritten_foldl`: where the slots of a table are in an image;
* `Table.get_ofBytes`, `Table.get_ofBytes_of_slotsWritten`: the slots that are read;
* `Region.Fits`: regions that have an image;
* `Region.sameSlots_ofBytes`: the region that is read from the bytes of a region;
* `Contents.IsImage`, `Contents.IsImage.sameSlots_setHeader`, `Contents.IsImage.sameSlots_flushed`: files with a
  region in them or its bytes.
-/

namespace ProcProfile

open Bytes

/-! ### Offsets -/

namespace SlotArea

variable {a : SlotArea} {i j n : Nat}

theorem offset_succ (a : SlotArea) (i : Nat) : a.offset (i + 1) = a.offset i + a.size := by
  unfold offset
  rw [Nat.add_mul, Nat.one_mul, Nat.add_assoc]

theorem offset_le (h : i ≤ j) : a.offset i ≤ a.offset j :=
  Nat.add_le_add_left (Nat.mul_le_mul_right _ h) _

/-- Of the bytes from the first one on, those of a slot are left out only if they are past the end. -/
theorem size_le_offset (hpos : 0 < a.size) (hi : i < a.count) (h : i ∉ a.touched 0 n) : n ≤ a.offset i := by
  unfold touched at h
  rw [Nat.zero_sub, Nat.zero_div, List.mem_range'_1, not_and_or, Nat.zero_add, Nat.sub_zero] at h
  have hge : (n - a.start + (a.size - 1)) / a.size ≤ i := by omega
  have hlt := (Nat.div_lt_iff_lt_mul hpos).1 (Nat.lt_succ_of_le hge)
  rw [Nat.succ_mul] at hlt
  unfold offset
  omega

theorem lt_count_of_mem_touched (h : i ∈ a.touched 0 n) : i < a.count := by
  unfold touched at h
  rw [Nat.zero_sub, Nat.zero_div, List.mem_range'_1] at h
  omega

end SlotArea

/-! ### Reading a table -/

namespace Table

variable {κ ν : Type} {a : SlotArea} {push : ByteArray → Slot κ ν → ByteArray} {read : ByteArray → Nat → Slot κ ν}
  {Fits : Slot κ ν → Prop} {b c : ByteArray} {i : Nat}

theorem size_setAll (slots : List Nat) (skip : Nat → Bool) (slot : Nat → Slot κ ν) (t : Table κ ν) :
    (slots.foldl (fun t i => if skip i then t else t.set i (slot i)) t).size = t.size := by
  induction slots generalizing t with
  | nil => rfl
  | cons j slots ih =>
    rw [List.foldl_cons, ih]
    split_ifs
    · rfl
    · exact t.size_set j _

@[simp] theorem size_ofBytes (a : SlotArea) (read : ByteArray → Nat → Slot κ ν) (b : ByteArray) :
    (ofBytes a read b).size = a.count :=
  size_setAll _ (fun i => isZero b (a.offset i) a.size) (fun i => read b (a.offset i)) _

variable [Inhabited κ] [Inhabited ν]

theorem get_setAll (slots : List Nat) (skip : Nat → Bool) (slot : Nat → Slot κ ν) (t : Table κ ν)
    (hslots : ∀ j ∈ slots, j < t.size) (i : Nat) :
    (slots.foldl (fun t i => if skip i then t else t.set i (slot i)) t).get i =
      if i ∈ slots ∧ skip i = false then slot i else t.get i := by
  induction slots generalizing t with
  | nil => simp
  | cons j slots ih =>
    rw [List.forall_mem_cons] at hslots
    rw [List.foldl_cons]
    cases hskip : skip j with
    | true =>
      rw [if_pos rfl, ih t hslots.2]
      by_cases hij : i = j
      · subst hij
        simp [hskip]
      · simp [hij]
    | false =>
      rw [if_neg Bool.false_ne_true, ih _ (by simpa using hslots.2), t.get_set _ hslots.1]
      by_cases hij : i = j
      · subst hij
        simp [hskip]
      · simp [hij, Ne.symm hij]

/-- Every slot of a table is read at its offset, whether its bytes were written or not. -/
theorem get_ofBytes (hcodec : Codec a.size push read Fits) (hempty : read ByteArray.empty 0 = default)
    (hpos : 0 < a.size) (b : ByteArray) (hi : i < a.count) : (ofBytes a read b).get i = read b (a.offset i) := by
  have hblank : isZero b (a.offset i) a.size = true → read b (a.offset i) = default := fun hzero =>
    (hcodec.read_congr (sameAt_empty_of_isZero hzero)).trans hempty
  unfold ofBytes
  rw [get_setAll _ (fun i => isZero b (a.offset i) a.size) (fun i => read b (a.offset i)) _
    (fun j hj => SlotArea.lt_count_of_mem_touched hj), get_new]
  split_ifs with htouched
  · rfl
  · refine (hblank ?_).symm
    by_cases hmem : i ∈ a.touched 0 b.size
    · exact Bool.eq_true_of_not_eq_false fun hnot => htouched ⟨hmem, hnot⟩
    · have hle := SlotArea.size_le_offset hpos hi hmem
      exact isZero_iff.2 fun k _ => byte_of_size_le (by omega)

/-- Tables with the same slots. -/
structure SameSlots (t t' : Table κ ν) : Prop where
  size : t.size = t'.size
  get : ∀ i, t.get i = t'.get i

/-- A table is read from the bytes of its slots. -/
theorem sameSlots_ofBytes_congr (hcodec : Codec a.size push read Fits) (hempty : read ByteArray.empty 0 = default)
    (hpos : 0 < a.size) (h : ∀ j, a.offset 0 ≤ j → byte b j = byte c j) :
    (ofBytes a read b).SameSlots (ofBytes a read c) := by
  refine ⟨(size_ofBytes ..).trans (size_ofBytes ..).symm, fun i => ?_⟩
  by_cases hi : i < a.count
  · have hle : a.offset 0 ≤ a.offset i := SlotArea.offset_le (Nat.zero_le i)
    rw [get_ofBytes hcodec hempty hpos b hi, get_ofBytes hcodec hempty hpos c hi]
    exact hcodec.read_congr fun k _ => h _ (by omega)
  · rw [get_of_size_le _ (by rw [size_ofBytes]; omega), get_of_size_le _ (by rw [size_ofBytes]; omega)]

end Table

/-! ### Writing a table -/

/-- The bytes `c` are the bytes `b` with slots of a table written behind them. -/
structure SlotsWritten {κ ν : Type} (a : SlotArea) (read : ByteArray → Nat → Slot κ ν)
    (slots : List (Nat × Slot κ ν)) (b c : ByteArray) : Prop where
  slot : ∀ e ∈ slots, read c (a.offset e.1) = e.2
  rest : ∀ j, (∀ e ∈ slots, j < a.offset e.1 ∨ a.offset (e.1 + 1) ≤ j) → byte c j = byte b j
  size_le : ∀ n, b.size ≤ n → (∀ e ∈ slots, a.offset (e.1 + 1) ≤ n) → c.size ≤ n

section Writing

variable {κ ν : Type} {a : SlotArea} {push : ByteArray → Slot κ ν → ByteArray} {read : ByteArray → Nat → Slot κ ν}
  {Fits : Slot κ ν → Prop} {limit : Nat}

theorem slotsWritten_foldl (hcodec : Codec a.size push read Fits) {slots : List (Nat × Slot κ ν)}
    (hordered : slots.Pairwise fun e e' => e.1 < e'.1) (hfits : ∀ e ∈ slots, Fits e.2)
    (hlimit : ∀ e ∈ slots, a.offset e.1 < limit) {b : ByteArray} (hstart : ∀ e ∈ slots, b.size ≤ a.offset e.1) :
    SlotsWritten a read slots b
      (slots.foldl (fun b e => if a.offset e.1 < limit then push (fill b (a.offset e.1)) e.2 else b) b) := by
  induction slots generalizing b with
  | nil => exact ⟨by simp, fun _ _ => rfl, fun n hn _ => hn⟩
  | cons e slots ih =>
    rw [List.pairwise_cons] at hordered
    rw [List.forall_mem_cons] at hfits hlimit hstart
    rw [List.foldl_cons, if_pos hlimit.1]
    -- the slot is written at its offset, and the later ones behind it
    have hfill : (fill b (a.offset e.1)).size = a.offset e.1 := by
      rw [size_fill]
      omega
    have hsize : (push (fill b (a.offset e.1)) e.2).size = a.offset (e.1 + 1) := by
      rw [hcodec.size_push _ hfits.1, hfill, SlotArea.offset_succ]
    have hbehind : ∀ e' ∈ slots, a.offset (e.1 + 1) ≤ a.offset e'.1 := fun e' he' =>
      SlotArea.offset_le (hordered.1 e' he')
    have hrest := ih hordered.2 hfits.2 hlimit.2 (b := push (fill b (a.offset e.1)) e.2) (by rwa [hsize])
    have hextends : Extends (fill b (a.offset e.1)) (push (fill b (a.offset e.1)) e.2) := hcodec.extends_push _ _
    refine ⟨?_, fun j hj => ?_, fun n hn hends => ?_⟩
    · rw [List.forall_mem_cons]
      refine ⟨?_, hrest.slot⟩
      have hread := hcodec.read_push (fill b (a.offset e.1)) hfits.1
      rw [hfill] at hread
      refine (hcodec.read_congr fun k hk => hrest.rest _ fun e' he' => .inl ?_).trans hread
      have hnext := hbehind e' he'
      rw [SlotArea.offset_succ] at hnext
      omega
    · rw [List.forall_mem_cons] at hj
      rw [hrest.rest j hj.2]
      rcases hj.1 with hbefore | hafter
      · rw [hextends.2 j (by omega), byte_fill]
      · have hle := hstart.1
        rw [SlotArea.offset_succ] at hafter
        rw [byte_of_size_le (by rw [hsize, SlotArea.offset_succ]; omega), byte_of_size_le (by omega)]
    · rw [List.forall_mem_cons] at hends
      exact hrest.size_le n (by rw [hsize]; exact hends.1) hends.2

namespace Table

variable {t : Table κ ν}

theorem ordered_toList (t : Table κ ν) : t.toList.Pairwise fun e e' => e.1 < e'.1 :=
  (Std.TreeMap.ordered_keys_toList (t := t.written)).imp fun h => compare_lt_iff_lt.1 h

theorem lt_size_of_mem_toList {e : Nat × Slot κ ν} (h : e ∈ t.toList) : e.1 < t.size := by
  refine t.lt_size e.1 ?_
  have hget := Std.TreeMap.mem_toList_iff_getElem?_eq_some.1 (show (e.1, e.2) ∈ t.written.toList from h)
  exact Std.TreeMap.mem_iff_isSome_getElem?.2 (by rw [hget]; rfl)

variable [Inhabited κ] [Inhabited ν]

theorem get_eq_default {i : Nat} (h : ∀ e ∈ t.toList, e.1 ≠ i) : t.get i = default := by
  refine Std.TreeMap.getD_eq_fallback fun hi => ?_
  obtain ⟨slot, hslot⟩ := Option.isSome_iff_exists.1 (Std.TreeMap.mem_iff_isSome_getElem?.1 hi)
  exact h (i, slot) (Std.TreeMap.mem_toList_iff_getElem?_eq_some.2 hslot) rfl

theorem slotsWritten_push (hcodec : Codec a.size push read Fits) (hfits : ∀ i, Fits (t.get i))
    (hcount : a.count = t.size) (hpos : 0 < a.size) (hlimit : a.offset a.count ≤ limit) {b : ByteArray}
    (hstart : b.size ≤ a.offset 0) : SlotsWritten a read t.toList b (t.push a push limit b) := by
  refine slotsWritten_foldl hcodec t.ordered_toList (fun e he => ?_) (fun e he => ?_) fun e _ => ?_
  · rw [← get_of_mem_toList (show (e.1, e.2) ∈ t.toList from he)]
    exact hfits e.1
  · have hlt := lt_size_of_mem_toList he
    have hle : a.offset (e.1 + 1) ≤ a.offset a.count := SlotArea.offset_le (by omega)
    rw [SlotArea.offset_succ] at hle
    omega
  · exact hstart.trans (SlotArea.offset_le (Nat.zero_le _))

/-- A table is read from bytes as it was written into them. -/
theorem get_ofBytes_of_slotsWritten (hcodec : Codec a.size push read Fits)
    (hempty : read ByteArray.empty 0 = default) (hpos : 0 < a.size) (hcount : a.count = t.size)
    {b c d : ByteArray} (hwritten : SlotsWritten a read t.toList b c) (hstart : b.size ≤ a.offset 0)
    (hd : ∀ j, a.offset 0 ≤ j → j < a.offset a.count → byte d j = byte c j) (i : Nat) :
    (ofBytes a read d).get i = t.get i := by
  by_cases hi : i < t.size
  · have hoffset : a.offset (i + 1) ≤ a.offset a.count := SlotArea.offset_le (by omega)
    have hfirst : a.offset 0 ≤ a.offset i := SlotArea.offset_le (Nat.zero_le i)
    rw [SlotArea.offset_succ] at hoffset
    rw [get_ofBytes hcodec hempty hpos d (by omega),
      hcodec.read_congr (fun k hk => hd _ (by omega) (by omega) : SameAt d _ c _ a.size)]
    by_cases hmem : ∃ e ∈ t.toList, e.1 = i
    · obtain ⟨e, he, rfl⟩ := hmem
      rw [hwritten.slot e he]
      exact (get_of_mem_toList (show (e.1, e.2) ∈ t.toList from he)).symm
    · -- no slot was written here, so the bytes are those past the end of `b`
      have hnone : ∀ e ∈ t.toList, e.1 ≠ i := fun e he hei => hmem ⟨e, he, hei⟩
      rw [get_eq_default hnone, ← hempty]
      refine hcodec.read_congr (sameAt_empty_of_isZero (isZero_iff.2 fun k hk => ?_))
      rw [hwritten.rest _ fun e he => ?_, byte_of_size_le (by omega)]
      rcases Nat.lt_or_gt_of_ne (hnone e he) with hlt | hgt
      · have hle : a.offset (e.1 + 1) ≤ a.offset i := SlotArea.offset_le hlt
        exact .inr (by omega)
      · have hle : a.offset (i + 1) ≤ a.offset e.1 := SlotArea.offset_le hgt
        rw [SlotArea.offset_succ] at hle
        exact .inl (by omega)
  · rw [get_of_size_le _ (by rw [size_ofBytes]; omega), get_of_size_le _ (by omega)]

end Table

end Writing

/-! ### Regions -/

namespace Region

/-- Regions with the same header and the same slots. -/
structure SameSlots (r r' : Region) : Prop where
  header : r.header = r'.header
  chunks : r.chunks.SameSlots r'.chunks
  units : r.units.SameSlots r'.units

/-- A region all of whose slots have an image. -/
def Fits (r : Region) : Prop := ∀ i, ChunkSlotFits (r.chunks.get i)

end Region

theorem Layout.offset_chunkArea (l : Layout) : l.chunkArea.offset 0 = headerSize := by
  simp [SlotArea.offset, chunkArea, chunkOffset]

theorem Layout.size_chunkArea_pos (l : Layout) : 0 < l.chunkArea.size := by
  show 0 < chunkSlotSize
  decide

theorem Layout.size_unitArea_pos (l : Layout) : 0 < l.unitArea.size := by
  show 0 < unitSlotSize
  decide

/-- The unit slots begin where the chunk slots end. -/
theorem Layout.offset_unitArea (l : Layout) : l.chunkArea.offset l.chunkArea.count = l.unitArea.offset 0 := by
  simp [SlotArea.offset, chunkArea, unitArea, chunkOffset, unitOffset]

theorem Layout.offset_end (l : Layout) : l.unitArea.offset l.unitArea.count = l.length := by
  simp [SlotArea.offset, unitArea, length, unitOffset]

namespace Region

variable {r : Region}

/-- The bytes of a region are read as that region, with zeros at the end or without. -/
theorem sameSlots_ofBytes (h : r.Fits) {b : ByteArray} (hb : ∀ j, byte b j = byte (r.toBytes r.layout.length) j) :
    (ofBytes r.layout b).SameSlots r := by
  have hfirst := r.layout.offset_chunkArea
  have hsecond := r.layout.offset_unitArea
  have hend := r.layout.offset_end
  have hbefore : r.layout.chunkArea.offset 0 ≤ r.layout.unitArea.offset 0 := by
    rw [← hsecond]
    exact SlotArea.offset_le (Nat.zero_le _)
  have hbehind : r.layout.unitArea.offset 0 ≤ r.layout.length := by
    rw [← hend]
    exact SlotArea.offset_le (Nat.zero_le _)
  -- the header, then the chunk slots, then the unit slots
  generalize hfront : Header.push ByteArray.empty r.header = front
  have hfrontSize : front.size = headerSize := by rw [← hfront, Header.size_push_empty]
  have hchunks := Table.slotsWritten_push chunkSlot_codec (t := r.chunks) (a := r.layout.chunkArea)
    (b := front) h rfl r.layout.size_chunkArea_pos (show _ ≤ r.layout.length by omega) (by omega)
  generalize hmid : r.chunks.push r.layout.chunkArea pushChunkSlot r.layout.length front = mid at hchunks
  have hmidSize : mid.size ≤ r.layout.unitArea.offset 0 := by
    refine hchunks.size_le _ (by omega) fun e he => ?_
    rw [← hsecond]
    exact SlotArea.offset_le (Table.lt_size_of_mem_toList he)
  have hunits := Table.slotsWritten_push unitSlot_codec (t := r.units) (a := r.layout.unitArea)
    (b := mid) (fun _ => trivial) rfl r.layout.size_unitArea_pos (show _ ≤ r.layout.length from hend.le) hmidSize
  generalize hall : r.units.push r.layout.unitArea pushUnitSlot r.layout.length mid = all at hunits
  have hallSize : all.size ≤ r.layout.length := by
    refine hunits.size_le _ (by omega) fun e he => ?_
    rw [← hend]
    exact SlotArea.offset_le (Table.lt_size_of_mem_toList he)
  have himage : ∀ j, byte b j = byte all j := by
    intro j
    rw [hb, toBytes, hfront, hmid, hall, byte_extract, Nat.zero_add]
    split_ifs with hj
    · rfl
    · exact (byte_of_size_le (by omega)).symm
  have hunder : ∀ j < r.layout.unitArea.offset 0, byte b j = byte mid j := by
    intro j hj
    rw [himage, hunits.rest j fun e _ => .inl (hj.trans_le (SlotArea.offset_le (Nat.zero_le _)))]
  refine ⟨?_, ⟨Table.size_ofBytes .., fun i => ?_⟩, ⟨Table.size_ofBytes .., fun i => ?_⟩⟩
  · show Header.ofBytes b = r.header
    rw [← r.header.ofBytes_push, hfront]
    refine Header.ofBytes_congr fun k hk => ?_
    rw [Nat.zero_add, hunder k (by omega),
      hchunks.rest k fun e _ => .inl (by have := SlotArea.offset_le (a := r.layout.chunkArea) (Nat.zero_le e.1); omega)]
  · exact Table.get_ofBytes_of_slotsWritten chunkSlot_codec chunkSlotOfBytes_empty r.layout.size_chunkArea_pos rfl
      hchunks (by omega) (fun j _ hj => hunder j (by omega)) i
  · exact Table.get_ofBytes_of_slotsWritten unitSlot_codec unitSlotOfBytes_empty r.layout.size_unitArea_pos rfl
      hunits hmidSize (fun j _ _ => himage j) i

/-- The slots are read from the bytes behind the header. -/
theorem sameSlots_ofBytes_congr {l : Layout} {b c : ByteArray} (h : ∀ j, headerSize ≤ j → byte b j = byte c j) :
    (ofBytes l b).SameSlots { ofBytes l c with header := (ofBytes l b).header } := by
  have hfirst := l.offset_chunkArea
  have hsecond : headerSize ≤ l.unitArea.offset 0 := by
    rw [← l.offset_unitArea, ← hfirst]
    exact SlotArea.offset_le (Nat.zero_le _)
  refine ⟨rfl, ?_, ?_⟩
  · exact Table.sameSlots_ofBytes_congr chunkSlot_codec chunkSlotOfBytes_empty l.size_chunkArea_pos
      fun j hj => h j (by omega)
  · exact Table.sameSlots_ofBytes_congr unitSlot_codec unitSlotOfBytes_empty l.size_unitArea_pos
      fun j hj => h j (by omega)

theorem layout_ofBytes (l : Layout) (b : ByteArray) : (ofBytes l b).layout = l := by
  unfold layout capacity unitCapacity ofBytes
  rw [Table.size_ofBytes, Table.size_ofBytes]
  rfl

end Region

/-! ### Files -/

namespace Contents

variable {c : Contents} {l : Layout} {r : Region}

/-- A file as long as a region with a given layout, with such a region in it or its bytes. -/
def IsImage (l : Layout) : Contents → Prop
  | .bytes data size => size = l.length ∧ headerSize ≤ data.size ∧ data.size ≤ l.length
  | .region r size => size = l.length ∧ r.layout = l

theorem isImage_ofRegion (r : Region) : (ofRegion r).IsImage r.layout := ⟨rfl, rfl⟩

theorem IsImage.size_eq (h : c.IsImage l) : c.size = l.length := by
  cases c with
  | bytes data size => exact h.1
  | region r size => exact h.1

theorem IsImage.extent_le (h : c.IsImage l) : c.extent ≤ l.length := by
  cases c with
  | bytes data size => exact h.2.2
  | region r size => exact (congrArg Layout.length h.2).le

theorem layout_mapped (c : Contents) (l : Layout) : (c.mapped l).layout = l := by
  cases c with
  | bytes data size => exact Region.layout_ofBytes l data
  | region r size =>
    unfold mapped
    dsimp only
    split_ifs with hlayout
    · exact hlayout
    · exact Region.layout_ofBytes l _

theorem IsImage.header_mapped (h : c.IsImage l) : (c.mapped l).header = c.header := by
  cases c with
  | bytes data size => rfl
  | region r size =>
    unfold mapped
    dsimp only
    rw [if_pos h.2]
    rfl

/-! ### Writing through a mapping -/

theorem IsImage.writeMapped (h : c.IsImage l) (hr : r.layout = l) : (c.writeMapped r).IsImage l := by
  unfold Contents.writeMapped
  dsimp only
  rw [hr, if_pos h.extent_le]
  exact ⟨h.size_eq, hr⟩

theorem mapped_writeMapped (h : c.extent ≤ l.length) (hr : r.layout = l) : (c.writeMapped r).mapped l = r := by
  unfold Contents.writeMapped
  dsimp only
  rw [hr, if_pos h]
  exact if_pos hr

/-! ### The header -/

theorem header_setHeader (c : Contents) (h : Header) : (c.setHeader h).header = h := by
  cases c with
  | bytes data size => exact h.ofBytes_overwrite data
  | region r size => rfl

theorem IsImage.setHeader (h : c.IsImage l) (header : Header) : (c.setHeader header).IsImage l := by
  cases c with
  | bytes data size =>
    have hsize := header.size_overwrite h.2.1
    exact ⟨h.1, by rw [hsize]; exact h.2⟩
  | region r size => exact h

/-- A new header leaves the slots as they are. -/
theorem IsImage.sameSlots_setHeader (h : c.IsImage l) (header : Header) :
    ((c.setHeader header).mapped l).SameSlots { c.mapped l with header := header } := by
  cases c with
  | bytes data size =>
    have hsame := Region.sameSlots_ofBytes_congr (l := l) (b := header.overwrite data) (c := data) fun j hj => by
      rw [Header.byte_overwrite, if_neg (by omega)]
    rwa [show (Region.ofBytes l (header.overwrite data)).header = header from header.ofBytes_overwrite data] at hsame
  | region r size =>
    unfold mapped Contents.setHeader
    dsimp only
    rw [if_pos h.2, if_pos (show Region.layout { r with header := header } = l from h.2)]
    exact ⟨rfl, ⟨rfl, fun _ => rfl⟩, ⟨rfl, fun _ => rfl⟩⟩

/-! ### Bytes alone -/

/-- A file of which nothing is kept but its bytes. -/
def flushed (c : Contents) : Contents := .bytes c.toBytes c.size

theorem IsImage.size_data_le (h : c.IsImage l) : c.data.size ≤ l.length := by
  cases c with
  | bytes data size => exact h.2.2
  | region r size =>
    show ((_ : ByteArray).extract 0 r.layout.length).size ≤ l.length
    rw [ByteArray.size_extract, h.2]
    omega

theorem IsImage.byte_toBytes (h : c.IsImage l) (j : Nat) : byte c.toBytes j = byte c.data j := by
  have hdata := h.size_data_le
  unfold toBytes
  rw [byte_fill, byte_extract, Nat.zero_add, h.size_eq]
  split_ifs with hj
  · rfl
  · exact (byte_of_size_le (by omega)).symm

theorem IsImage.flushed (h : c.IsImage l) : c.flushed.IsImage l := by
  have hlength : headerSize ≤ l.length := by
    rw [← l.offset_end, ← l.offset_chunkArea]
    exact (SlotArea.offset_le (Nat.zero_le _)).trans (l.offset_unitArea.le.trans (SlotArea.offset_le (Nat.zero_le _)))
  have hsize : c.toBytes.size = l.length := by
    unfold toBytes
    rw [size_fill, ByteArray.size_extract, h.size_eq]
    omega
  exact ⟨h.size_eq, by rw [hsize]; exact ⟨hlength, le_rfl⟩⟩

/-- The bytes of a file hold its region. -/
theorem IsImage.sameSlots_flushed (h : c.IsImage l) (hfits : (c.mapped l).Fits) :
    (c.flushed.mapped l).SameSlots (c.mapped l) := by
  have hbytes := h.byte_toBytes
  cases c with
  | bytes data size =>
    have hheader : Header.ofBytes (Contents.bytes data size).toBytes = Header.ofBytes data :=
      Header.ofBytes_congr fun k _ => hbytes (0 + k)
    have hsame := Region.sameSlots_ofBytes_congr (l := l) fun j _ => hbytes j
    exact ⟨hheader, hsame.chunks, hsame.units⟩
  | region r size =>
    have hmapped : (Contents.region r size).mapped l = r := if_pos h.2
    rw [hmapped] at hfits ⊢
    have hlayout := h.2
    subst hlayout
    exact Region.sameSlots_ofBytes hfits hbytes

end Contents

end ProcProfile
