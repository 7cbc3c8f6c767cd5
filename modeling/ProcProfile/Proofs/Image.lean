import Mathlib.Tactic
import ProcProfile.Region.Image

/-!
# Reading back what was written into an image

Words, records, keys, slots and headers are appended to a sequence of bytes and read at the offset at which they
begin.  What is read depends on the bytes that the item takes up and on no others, and it is what was appended.

* `Bytes.SameAt`, `Bytes.Extends`: bytes that agree over a range, and bytes to which more were appended;
* `Bytes.toNat_word_push`: a word is read as it was pushed;
* `Codec`: items of a fixed size that can be read back;
* `record_codec`, `chunkKey_codec`, `chunkSlot_codec`, `unitSlot_codec`: the parts of a region;
* `Header.ofBytes_push`, `Header.ofBytes_overwrite`: its header.
-/

namespace ProcProfile

namespace Bytes

variable {a b c : ByteArray} {i j k m n : Nat}

/-! ### Single bytes -/

theorem byte_of_size_le (h : b.size ≤ i) : byte b i = 0 := dif_neg (Nat.not_lt.2 h)

theorem byte_of_lt (h : i < b.size) : byte b i = b[i] := dif_pos h

theorem byte_pushByte (b : ByteArray) (x : UInt8) (i : Nat) :
    byte (b.push x) i = if i = b.size then x else byte b i := by
  by_cases hlt : i < (b.push x).size
  · rw [byte_of_lt hlt]
    show (b.data.push x)[i] = _
    rw [Array.getElem_push]
    rw [ByteArray.size_push] at hlt
    by_cases hi : i < b.size
    · rw [dif_pos (show i < b.data.size from hi), if_neg (by omega), byte_of_lt hi]
      rfl
    · rw [dif_neg (show ¬ i < b.data.size from hi), if_pos (by omega)]
  · rw [byte_of_size_le (Nat.not_lt.1 hlt)]
    rw [ByteArray.size_push] at hlt
    rw [if_neg (by omega), byte_of_size_le (by omega)]

theorem byte_append (a b : ByteArray) (i : Nat) :
    byte (a ++ b) i = if i < a.size then byte a i else byte b (i - a.size) := by
  split_ifs with hlt
  · rw [byte_of_lt hlt, byte_of_lt (by rw [ByteArray.size_append]; omega), ByteArray.getElem_append_left hlt]
  · by_cases hend : i < a.size + b.size
    · rw [byte_of_lt (by rw [ByteArray.size_append]; omega), byte_of_lt (by omega),
        ByteArray.getElem_append_right (by omega)]
    · rw [byte_of_size_le (by rw [ByteArray.size_append]; omega), byte_of_size_le (by omega)]

theorem byte_extract (b : ByteArray) (first last i : Nat) :
    byte (b.extract first last) i = if first + i < last then byte b (first + i) else 0 := by
  by_cases hlt : i < (b.extract first last).size
  · rw [ByteArray.size_extract] at hlt
    rw [byte_of_lt (by rw [ByteArray.size_extract]; omega), ByteArray.getElem_extract, if_pos (by omega),
      byte_of_lt (by omega)]
  · rw [ByteArray.size_extract] at hlt
    rw [byte_of_size_le (by rw [ByteArray.size_extract]; omega)]
    split_ifs
    · rw [byte_of_size_le (by omega)]
    · rfl

theorem size_pushZeros (b : ByteArray) (n : Nat) : (pushZeros b n).size = b.size + n := by
  induction n generalizing b with
  | zero => rfl
  | succ n ih =>
    rw [pushZeros, ih, ByteArray.size_push]
    omega

/-- Zeros at the end are read with or without being there. -/
@[simp] theorem byte_pushZeros (b : ByteArray) (n i : Nat) : byte (pushZeros b n) i = byte b i := by
  induction n generalizing b with
  | zero => rfl
  | succ n ih =>
    rw [pushZeros, ih, byte_pushByte]
    split_ifs with h
    · exact (byte_of_size_le h.ge).symm
    · rfl

@[simp] theorem byte_fill (b : ByteArray) (size i : Nat) : byte (fill b size) i = byte b i := byte_pushZeros ..

theorem size_fill (b : ByteArray) (size : Nat) : (fill b size).size = max b.size size := by
  rw [fill, size_pushZeros]
  omega

/-! ### Ranges of bytes -/

/-- The `n` bytes of `a` at `i` are those of `b` at `j`. -/
def SameAt (a : ByteArray) (i : Nat) (b : ByteArray) (j n : Nat) : Prop :=
  ∀ k < n, byte a (i + k) = byte b (j + k)

theorem SameAt.sub (h : SameAt a i b j n) (k : Nat) {m : Nat} (hk : k + m ≤ n) :
    SameAt a (i + k) b (j + k) m := by
  intro l hl
  rw [Nat.add_assoc, Nat.add_assoc]
  exact h (k + l) (by omega)

theorem SameAt.take (h : SameAt a i b j n) (hm : m ≤ n) : SameAt a i b j m :=
  fun k hk => h k (by omega)

theorem word_congr (h : SameAt a i b j n) : word a i n = word b j n := by
  induction n generalizing i j with
  | zero => rfl
  | succ n ih =>
    have hfirst : byte a i = byte b j := h 0 (by omega)
    have hrest : word a (i + 1) n = word b (j + 1) n := ih (h.sub 1 (by omega))
    rw [word, word, hfirst, hrest]

theorem isZero_iff : isZero b i n = true ↔ ∀ k < n, byte b (i + k) = 0 := by
  induction n generalizing i with
  | zero => simp [isZero]
  | succ n ih =>
    rw [isZero, Bool.and_eq_true, beq_iff_eq, ih]
    constructor
    · rintro ⟨hfirst, hrest⟩ k hk
      cases k with
      | zero => exact hfirst
      | succ k =>
        rw [show i + (k + 1) = i + 1 + k by omega]
        exact hrest k (by omega)
    · intro h
      refine ⟨h 0 (by omega), fun k hk => ?_⟩
      rw [show i + 1 + k = i + (k + 1) by omega]
      exact h (k + 1) (by omega)

/-- Zeros are as the bytes past the end. -/
theorem sameAt_empty_of_isZero (h : isZero b i n = true) : SameAt b i ByteArray.empty 0 n := by
  intro k hk
  rw [isZero_iff.1 h k hk, byte_of_size_le (Nat.zero_le _)]

/-! ### Appending -/

/-- The bytes `b` with more appended. -/
def Extends (a b : ByteArray) : Prop := a.size ≤ b.size ∧ ∀ i < a.size, byte b i = byte a i

theorem Extends.refl (a : ByteArray) : Extends a a := ⟨le_rfl, fun _ _ => rfl⟩

theorem Extends.trans (h : Extends a b) (h' : Extends b c) : Extends a c := by
  refine ⟨h.1.trans h'.1, fun i hi => ?_⟩
  rw [h'.2 i (hi.trans_le h.1), h.2 i hi]

theorem Extends.sameAt (h : Extends a b) (hi : i + n ≤ a.size) : SameAt b i a i n :=
  fun k hk => h.2 (i + k) (by omega)

theorem extends_pushByte (b : ByteArray) (x : UInt8) : Extends b (b.push x) := by
  refine ⟨by rw [ByteArray.size_push]; omega, fun i hi => ?_⟩
  rw [byte_pushByte, if_neg (by omega)]

@[simp] theorem size_push (b : ByteArray) (w : UInt64) (n : Nat) : (push b w n).size = b.size + n := by
  induction n generalizing b w with
  | zero => rfl
  | succ n ih =>
    rw [push, ih, ByteArray.size_push]
    omega

theorem extends_push (b : ByteArray) (w : UInt64) (n : Nat) : Extends b (push b w n) := by
  induction n generalizing b w with
  | zero => exact .refl b
  | succ n ih => exact (extends_pushByte b w.toUInt8).trans (ih _ _)

theorem Extends.push (h : Extends a b) (w : UInt64) (n : Nat) : Extends a (push b w n) :=
  h.trans (extends_push b w n)

/-- A byte below a word of bytes. -/
theorem toNat_or_shiftLeft (x : UInt8) {w : UInt64} (hw : w.toNat < 2 ^ 56) :
    (x.toUInt64 ||| w <<< 8).toNat = x.toNat + 256 * w.toNat := by
  have hx := x.toNat_lt
  have hshift : (w <<< 8).toNat = w.toNat <<< 8 := by
    rw [UInt64.toNat_shiftLeft]
    refine Nat.mod_eq_of_lt ?_
    show w.toNat <<< 8 < 2 ^ 64
    rw [Nat.shiftLeft_eq]
    omega
  rw [UInt64.toNat_or, UInt8.toNat_toUInt64, hshift, Nat.or_comm, ← Nat.shiftLeft_add_eq_or_of_lt hx,
    Nat.shiftLeft_eq]
  omega

/-- A word that was pushed is read as it was, as far as its bytes were pushed. -/
theorem toNat_word_push (b : ByteArray) (w : UInt64) (hn : n ≤ 8) :
    (word (push b w n) b.size n).toNat = w.toNat % 2 ^ (8 * n) := by
  induction n generalizing b w with
  | zero =>
    show 0 = w.toNat % 1
    omega
  | succ n ih =>
    have hfirst : byte (push (b.push w.toUInt8) (w >>> 8) n) b.size = w.toUInt8 := by
      rw [(extends_push _ _ n).2 b.size (by rw [ByteArray.size_push]; omega), byte_pushByte, if_pos rfl]
    have hrest := ih (b.push w.toUInt8) (w >>> 8) (by omega)
    rw [ByteArray.size_push] at hrest
    have hhigh : (w >>> 8).toNat = w.toNat / 256 := by
      rw [UInt64.toNat_shiftRight]
      show w.toNat >>> 8 = _
      rw [Nat.shiftRight_eq_div_pow]
    have hlt : (word (push (b.push w.toUInt8) (w >>> 8) n) (b.size + 1) n).toNat < 2 ^ 56 := by
      rw [hrest]
      exact (Nat.mod_lt _ (by positivity)).trans_le (Nat.pow_le_pow_right (by omega) (by omega))
    rw [push, word, hfirst, toNat_or_shiftLeft _ hlt, hrest, hhigh, UInt64.toNat_toUInt8,
      show 8 * (n + 1) = 8 + 8 * n by omega, Nat.pow_add, Nat.mod_mul]

theorem word_push_of_le (w : UInt64) (h : i + m ≤ b.size) : word (push b w n) i m = word b i m :=
  word_congr ((extends_push b w n).sameAt h)

theorem word_push_self (h : i = b.size) {w : UInt64} (hn : n ≤ 8) (hw : w.toNat < 2 ^ (8 * n)) :
    word (push b w n) i n = w := by
  subst h
  rw [← UInt64.toNat_inj, toNat_word_push b w hn, Nat.mod_eq_of_lt hw]

theorem toUInt16_word_push (h : i = b.size) (w : UInt16) : (word (push b w.toUInt64 2) i 2).toUInt16 = w := by
  have hw := w.toNat_lt
  rw [word_push_self h (by omega) (by rw [UInt16.toNat_toUInt64]; omega), UInt16.toUInt16_toUInt64]

theorem toUInt32_word_push (h : i = b.size) (w : UInt32) : (word (push b w.toUInt64 4) i 4).toUInt32 = w := by
  have hw := w.toNat_lt
  rw [word_push_self h (by omega) (by rw [UInt32.toNat_toUInt64]; omega), UInt32.toUInt32_toUInt64]

theorem word_push_eight (h : i = b.size) (w : UInt64) : word (push b w 8) i 8 = w :=
  word_push_self h le_rfl w.toNat_lt

theorem word16_congr (h : SameAt a i b j 2) : word16 a i = word16 b j :=
  congrArg UInt64.toUInt16 (word_congr h)

theorem word32_congr (h : SameAt a i b j 4) : word32 a i = word32 b j :=
  congrArg UInt64.toUInt32 (word_congr h)

theorem word64_congr (h : SameAt a i b j 8) : word64 a i = word64 b j := word_congr h

/-! ### Marks -/

/-- What fills the word of a mark, if the mark is not set. -/
theorem and_mask {w : UInt64} (h : w &&& 1 = 0) : w &&& 0xfffffffffffffffe = w := by
  have hlow : w.toBitVec &&& 1 = 0 := congrArg UInt64.toBitVec h
  apply UInt64.toBitVec_inj.1
  calc w.toBitVec &&& 0xfffffffffffffffe
      = (w.toBitVec &&& 1) ||| (w.toBitVec &&& 0xfffffffffffffffe) := by rw [hlow]; exact BitVec.zero_or.symm
    _ = w.toBitVec &&& (1 ||| 0xfffffffffffffffe) := by rw [BitVec.and_or_distrib_left]
    _ = w.toBitVec := BitVec.and_allOnes

/-- What fills the word of a mark that is set. -/
theorem or_one_and_mask {w : UInt64} (h : w &&& 1 = 0) : (w ||| 1) &&& 0xfffffffffffffffe = w := by
  have hw : w.toBitVec &&& 0xfffffffffffffffe = w.toBitVec := congrArg UInt64.toBitVec (and_mask h)
  apply UInt64.toBitVec_inj.1
  calc (w.toBitVec ||| 1) &&& 0xfffffffffffffffe
      = (w.toBitVec &&& 0xfffffffffffffffe) ||| (1 &&& 0xfffffffffffffffe) := BitVec.and_or_distrib_right
    _ = w.toBitVec := by rw [hw]; exact BitVec.or_zero

theorem or_one_and_one (w : UInt64) : (w ||| 1) &&& 1 = 1 := by
  apply UInt64.toNat_inj.1
  simp

end Bytes

open Bytes

/-! ### Items of a fixed size -/

/-- Items of `size` bytes: `push` appends one, `read` reads the one at an offset.  Reading looks at the bytes of
the item only, and gives back what was appended, if it `Fits`. -/
structure Codec {α : Type} (size : Nat) (push : ByteArray → α → ByteArray) (read : ByteArray → Nat → α)
    (Fits : α → Prop) : Prop where
  size_push : ∀ b {x}, Fits x → (push b x).size = b.size + size
  extends_push : ∀ b x, Extends b (push b x)
  read_congr : ∀ {a i b j}, SameAt a i b j size → read a i = read b j
  read_push : ∀ b {x}, Fits x → read (push b x) b.size = x

/-- What was appended later does not matter. -/
theorem Codec.read_of_extends {α : Type} {size : Nat} {push : ByteArray → α → ByteArray}
    {read : ByteArray → Nat → α} {Fits : α → Prop} (h : Codec size push read Fits) {b c : ByteArray} {x : α}
    (hx : Fits x) (hc : Extends (push b x) c) : read c b.size = x := by
  rw [h.read_congr (hc.sameAt (h.size_push b hx).ge), h.read_push b hx]

/-! ### Records -/

/-- A record whose mark is kept apart from what fills its word. -/
def Record.Fits (r : Record) : Prop := r.markFiller &&& 1 = 0

theorem Record.ofBytes_congr {a b : ByteArray} {i j : Nat} (h : SameAt a i b j recordSize) :
    Record.ofBytes a i = Record.ofBytes b j := by
  unfold Record.ofBytes
  rw [word32_congr (h.take (by decide)), word32_congr (h.sub 4 (by decide)), word64_congr (h.sub 8 (by decide)),
    word64_congr (h.sub 16 (by decide)), word64_congr (h.sub 24 (by decide)), word64_congr (h.sub 32 (by decide)),
    word64_congr (h.sub 40 (by decide)), word64_congr (h.sub 48 (by decide)), word64_congr (h.sub 56 (by decide))]

theorem Record.extends_push (b : ByteArray) (r : Record) : Extends b (r.push b) := by
  unfold Record.push push32 push64
  exact (Extends.refl b).push _ 4 |>.push _ 4 |>.push _ 8 |>.push _ 8 |>.push _ 8 |>.push _ 8 |>.push _ 8 |>.push _ 8
    |>.push _ 8

theorem Record.ofBytes_push (b : ByteArray) {r : Record} (h : r.Fits) : Record.ofBytes (r.push b) b.size = r := by
  simp (disch := first | omega | (simp only [Bytes.size_push] <;> omega) | fail) only [Record.ofBytes, Record.push,
    word32, word64, push32, push64, word_push_of_le, toUInt32_word_push, word_push_eight]
  cases hmark : r.hasFingerprint with
  | true =>
    simp only [if_true, or_one_and_one, or_one_and_mask h, beq_self_eq_true, ← hmark]
    rfl
  | false =>
    have hclear : r.markFiller &&& 1 = 0 := h
    simp only [Bool.false_eq_true, if_false, hclear, and_mask h]
    rw [show ((0 : UInt64) == 1) = false from rfl, ← hmark]
    rfl

theorem record_codec : Codec recordSize (fun b r => Record.push b r) Record.ofBytes Record.Fits where
  size_push b r _ := by
    simp only [Record.push, push32, push64, Bytes.size_push, recordSize]
  extends_push := Record.extends_push
  read_congr := Record.ofBytes_congr
  read_push b _ h := Record.ofBytes_push b h

/-! ### Lists of records -/

theorem pushRecords_cons (b : ByteArray) (r : Record) (records : List Record) :
    pushRecords b (r :: records) = pushRecords (r.push b) records := List.foldl_cons ..

theorem extends_pushRecords (b : ByteArray) (records : List Record) : Extends b (pushRecords b records) := by
  induction records generalizing b with
  | nil => exact .refl b
  | cons r records ih =>
    rw [pushRecords_cons]
    exact (r.extends_push b).trans (ih _)

theorem size_pushRecords (b : ByteArray) {records : List Record} (h : ∀ r ∈ records, r.Fits) :
    (pushRecords b records).size = b.size + records.length * recordSize := by
  induction records generalizing b with
  | nil => simp [pushRecords]
  | cons r records ih =>
    rw [List.forall_mem_cons] at h
    have hsize := ih (r.push b) h.2
    rw [record_codec.size_push b h.1] at hsize
    rw [pushRecords_cons, hsize, List.length_cons, Nat.add_mul, Nat.one_mul]
    omega

theorem recordsOfBytes_congr {a b : ByteArray} {i j n : Nat} (h : SameAt a i b j (n * recordSize)) :
    recordsOfBytes a i n = recordsOfBytes b j n := by
  induction n generalizing i j with
  | zero => rfl
  | succ n ih =>
    rw [Nat.add_mul, Nat.one_mul, Nat.add_comm] at h
    rw [recordsOfBytes, recordsOfBytes, Record.ofBytes_congr (h.take (Nat.le_add_right ..)),
      ih (h.sub recordSize le_rfl)]

theorem recordsOfBytes_pushRecords (b : ByteArray) {records : List Record} (h : ∀ r ∈ records, r.Fits) :
    recordsOfBytes (pushRecords b records) b.size records.length = records := by
  induction records generalizing b with
  | nil => rfl
  | cons r records ih =>
    rw [List.forall_mem_cons] at h
    have hrest := ih (r.push b) h.2
    rw [record_codec.size_push b h.1] at hrest
    rw [pushRecords_cons, List.length_cons, recordsOfBytes, hrest,
      record_codec.read_of_extends h.1 (extends_pushRecords _ _)]

/-! ### Chunk slots -/

/-- A key whose filler is as long as there is room for it. -/
def ChunkKey.Fits (key : ChunkKey) : Prop := key.filler.toNat < 2 ^ (8 * keyFillerSize)

theorem chunkKey_codec : Codec chunkKeySize (fun b key => ChunkKey.push b key) ChunkKey.ofBytes ChunkKey.Fits where
  size_push b key _ := by
    simp only [ChunkKey.push, push16, push32, push64, Bytes.size_push, chunkKeySize, keyFillerSize]
  extends_push b key := by
    unfold ChunkKey.push push16 push32 push64
    exact (Extends.refl b).push _ 4 |>.push _ 4 |>.push _ 8 |>.push _ 8 |>.push _ 2 |>.push _ 6
  read_congr h := by
    unfold ChunkKey.ofBytes
    rw [word32_congr (h.take (by decide)), word32_congr (h.sub 4 (by decide)), word64_congr (h.sub 8 (by decide)),
      word64_congr (h.sub 16 (by decide)), word16_congr (h.sub 24 (by decide)),
      word_congr (h.sub 26 (by decide : 26 + keyFillerSize ≤ chunkKeySize))]
  read_push b key h := by
    have hfiller : word (Bytes.push (push16 (push64 (push64 (push32 (push32 b key.identity.unitId)
        key.identity.ownerDb) key.identity.version) key.identity.location) key.number.toUInt16) key.filler
        keyFillerSize) (b.size + 26) keyFillerSize = key.filler := by
      refine word_push_self ?_ (by decide) h
      simp only [push16, push32, push64, Bytes.size_push]
    unfold ChunkKey.ofBytes ChunkKey.push
    dsimp only
    rw [hfiller]
    simp (disch := first | omega | (simp only [Bytes.size_push] <;> omega) | fail) only [word16, word32, word64,
      push16, push32, push64, word_push_of_le, toUInt16_word_push, toUInt32_word_push, word_push_eight]
    rfl

/-- A chunk slot with as many records as a chunk has. -/
structure ChunkSlotFits (slot : Slot ChunkKey Page) : Prop where
  key : slot.key.Fits
  length : slot.value.records.length = recordsPerChunk
  records : ∀ r ∈ slot.value.records, r.Fits

/-- The state and the lock word of a slot, at the front of it. -/
theorem words_of_extends {b c : ByteArray} (state mutex : UInt32) (h : Extends (push32 (push32 b state) mutex) c) :
    word32 c b.size = state ∧ word32 c (b.size + 4) = mutex := by
  have hsize : (push32 (push32 b state) mutex).size = b.size + 8 := by
    simp only [push32, Bytes.size_push]
  rw [word32_congr (h.sameAt (by omega)), word32_congr (h.sameAt (by omega))]
  simp (disch := first | omega | (simp only [Bytes.size_push] <;> omega) | fail) only [word32, push32,
    word_push_of_le, toUInt32_word_push, and_self]

theorem chunkSlot_codec : Codec chunkSlotSize pushChunkSlot chunkSlotOfBytes ChunkSlotFits where
  size_push b slot h := by
    rw [pushChunkSlot, size_pushRecords _ h.records, chunkKey_codec.size_push _ h.key, h.length, push32, push32,
      Bytes.size_push, Bytes.size_push]
    show b.size + 4 + 4 + 32 + 30 * 64 = b.size + 1960
    omega
  extends_push b slot := by
    refine .trans ?_ (extends_pushRecords _ _)
    refine .trans ?_ (chunkKey_codec.extends_push _ _)
    exact (Extends.refl b).push _ 4 |>.push _ 4
  read_congr h := by
    unfold chunkSlotOfBytes
    rw [word32_congr (h.take (by decide)), word32_congr (h.sub 4 (by decide)),
      chunkKey_codec.read_congr (h.sub 8 (by decide)),
      recordsOfBytes_congr (h.sub 40 (by decide : 40 + recordsPerChunk * recordSize ≤ chunkSlotSize))]
  read_push b slot h := by
    have hfront : (push32 (push32 b slot.state) slot.mutex).size = b.size + 8 := by
      simp only [push32, Bytes.size_push]
    have hpage := extends_pushRecords (slot.key.push (push32 (push32 b slot.state) slot.mutex)) slot.value.records
    have hwords := words_of_extends slot.state slot.mutex ((chunkKey_codec.extends_push _ _).trans hpage)
    have hkey := chunkKey_codec.read_of_extends h.key hpage
    have hrecords := recordsOfBytes_pushRecords (slot.key.push (push32 (push32 b slot.state) slot.mutex)) h.records
    rw [hfront] at hkey
    rw [chunkKey_codec.size_push _ h.key, hfront, h.length] at hrecords
    unfold chunkSlotOfBytes pushChunkSlot
    rw [hwords.1, hwords.2, hkey]
    erw [hrecords]

/-! ### Unit slots -/

theorem unitSlot_codec : Codec unitSlotSize pushUnitSlot unitSlotOfBytes fun _ => True where
  size_push b slot _ := by
    simp only [pushUnitSlot, push32, push64, Bytes.size_push, unitSlotSize]
  extends_push b slot := by
    unfold pushUnitSlot push32 push64
    exact (Extends.refl b).push _ 4 |>.push _ 4 |>.push _ 4 |>.push _ 4 |>.push _ 8 |>.push _ 8 |>.push _ 8
      |>.push _ 8 |>.push _ 8 |>.push _ 8
  read_congr h := by
    unfold unitSlotOfBytes
    rw [word32_congr (h.take (by decide)), word32_congr (h.sub 4 (by decide)), word32_congr (h.sub 8 (by decide)),
      word32_congr (h.sub 12 (by decide)), word64_congr (h.sub 16 (by decide)), word64_congr (h.sub 24 (by decide)),
      word64_congr (h.sub 32 (by decide)), word64_congr (h.sub 40 (by decide)), word64_congr (h.sub 48 (by decide)),
      word64_congr (h.sub 56 (by decide))]
  read_push b slot _ := by
    simp (disch := first | omega | (simp only [Bytes.size_push] <;> omega) | fail) only [unitSlotOfBytes,
      pushUnitSlot, word32, word64, push32, push64, word_push_of_le, toUInt32_word_push, word_push_eight]

/-! ### Slots that were never written -/

theorem chunkSlotOfBytes_empty : chunkSlotOfBytes ByteArray.empty 0 = default := by
  decide +kernel

theorem unitSlotOfBytes_empty : unitSlotOfBytes ByteArray.empty 0 = default := by
  decide +kernel

/-! ### Headers -/

namespace Header

theorem size_push (b : ByteArray) (h : Header) : (push b h).size = b.size + headerSize := by
  simp only [push, push32, push64, Bytes.size_push, headerSize]

theorem ofBytes_congr {a b : ByteArray} (h : SameAt a 0 b 0 headerSize) : ofBytes a = ofBytes b := by
  have hword64 : ∀ k, k + 8 ≤ headerSize → word64 a k = word64 b k := by
    intro k hk
    have hsub := word64_congr (h.sub k hk)
    rwa [Nat.zero_add] at hsub
  have hword32 : ∀ k, k + 4 ≤ headerSize → word32 a k = word32 b k := by
    intro k hk
    have hsub := word32_congr (h.sub k hk)
    rwa [Nat.zero_add] at hsub
  unfold ofBytes
  rw [hword64 0 (by decide), hword32 8 (by decide), hword32 12 (by decide), hword64 16 (by decide),
    hword32 24 (by decide), hword32 28 (by decide), hword32 32 (by decide), hword32 36 (by decide),
    hword64 40 (by decide), hword64 48 (by decide), hword64 56 (by decide)]

theorem ofBytes_push (h : Header) : ofBytes (push ByteArray.empty h) = h := by
  simp (disch := first | omega | (simp only [Bytes.size_push, ByteArray.size_empty] <;> omega) | fail) only
    [ofBytes, push, word32, word64, push32, push64, word_push_of_le, toUInt32_word_push, word_push_eight]

theorem size_push_empty (h : Header) : (push ByteArray.empty h).size = headerSize := by
  rw [size_push, ByteArray.size_empty, Nat.zero_add]

theorem overwrite_eq (h : Header) (b : ByteArray) :
    h.overwrite b = push ByteArray.empty h ++ b.extract headerSize b.size := by
  have hsize := h.size_push_empty
  have hdata : (push ByteArray.empty h).data.size = headerSize := hsize
  have hwhole : (push ByteArray.empty h).extract 0 headerSize = push ByteArray.empty h := by
    rw [← hsize, ByteArray.extract_zero_size]
  rw [overwrite, ByteArray.copySlice_eq_append, ByteArray.extract_same, ByteArray.empty_append, Nat.zero_add,
    hdata, Nat.sub_zero, Nat.min_self, hwhole, ByteArray.size_data, Nat.zero_add]

theorem byte_overwrite (h : Header) (b : ByteArray) (i : Nat) :
    byte (h.overwrite b) i = if i < headerSize then byte (push ByteArray.empty h) i else byte b i := by
  rw [overwrite_eq, byte_append, size_push_empty]
  split_ifs with hi
  · rfl
  · rw [byte_extract, Nat.add_sub_of_le (Nat.not_lt.1 hi)]
    split_ifs with hend
    · rfl
    · exact (byte_of_size_le (Nat.not_lt.1 hend)).symm

theorem size_overwrite (h : Header) {b : ByteArray} (hb : headerSize ≤ b.size) : (h.overwrite b).size = b.size := by
  rw [overwrite_eq, ByteArray.size_append, size_push_empty, ByteArray.size_extract]
  omega

/-- A header that was put in place of another one is read. -/
theorem ofBytes_overwrite (h : Header) (b : ByteArray) : ofBytes (h.overwrite b) = h := by
  rw [← h.ofBytes_push]
  refine ofBytes_congr fun k hk => ?_
  rw [Nat.zero_add, byte_overwrite, if_pos hk, ofBytes_push]

end Header

end ProcProfile
