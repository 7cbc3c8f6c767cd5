import Mathlib.Tactic
import ProcProfile.Proofs.RegionFile

/-!
# Judging a file as a region

Whoever attaches to a file knows nothing of it.  Its first bytes are taken for a header, and the file is accepted if
the header is of this library's layout and the slots that it tells of fill the file.  The length of those slots is
counted in a word, so a header may tell of more than can be counted: then there is neither a store nor an error.

The header keeps the number of chunk slots as a word and the number of unit slots as half a word.  A region with more
unit slots than that is made, but its file is not accepted afterwards.

* `Header.Familiar`, `Header.Describes`, `Header.Overlong`: what may be true of a header and the size of its file;
* `Layout.ofFile_eq_ok_iff`, `Layout.ofFile_eq_fault_iff`: when a file is accepted, and when its length is not counted;
* `Disk.acquireToken_stops_all`: who waits for an owner id finds all of them alive;
* `Host.AttachStops`: why an attempt to attach gives no store;
* `attach_judges_every_file`: what becomes of an attempt to attach to any bytes;
* `new_header_accepted_iff`: which regions can be attached to after they were made.
-/

namespace ProcProfile

/-! ### The length of a region -/

/-- The operation that fails if the bytes of a region cannot be counted in a word, as long as those of its unit slots
alone can be. -/
def Layout.overflow (l : Layout) : Fault :=
  if 2 ^ 64 ≤ l.capacity * chunkSlotSize then .mulOverflow else .addOverflow

theorem Layout.length_eq (l : Layout) :
    l.length = headerSize + l.capacity * chunkSlotSize + l.unitCapacity * unitSlotSize := rfl

/-- A checked product fits, or it is as large as no counter is. -/
theorem Counter.endsIn_mul {a b : Counter} {bad : Fault → Prop} (h : 2 ^ 64 ≤ a.toNat * b.toNat → bad .mulOverflow) :
    EndsIn (fun c : Counter => c.toNat = a.toNat * b.toNat) bad (mul a b) := by
  unfold mul
  split_ifs with hlt
  · refine .ok ?_
    rw [UInt64.toNat_mul, Nat.mod_eq_of_lt hlt]
  · exact .error (h (not_lt.1 hlt))

/-- The bytes of a region of which a header may tell are counted if a word can hold their number. -/
theorem endsIn_regionLength (capacity : UInt64) (unitCapacity : UInt32) {l : Layout}
    (hl : l = ⟨capacity.toNat, unitCapacity.toNat⟩) :
    EndsIn (fun length : Counter => length.toNat = l.length) (fun f => 2 ^ 64 ≤ l.length ∧ f = l.overflow)
      (regionLength capacity unitCapacity.toUInt64) := by
  have hchunk : (UInt64.ofNat chunkSlotSize).toNat = chunkSlotSize := rfl
  have hhead : (UInt64.ofNat headerSize).toNat = headerSize := rfl
  have hunit : (UInt64.ofNat unitSlotSize).toNat = unitSlotSize := rfl
  have hfew := unitCapacity.toNat_lt
  rw [Layout.length_eq, Layout.overflow, hl]
  dsimp only
  unfold regionLength
  refine .bind (Counter.endsIn_mul fun hmul => ?_) fun chunks hchunks =>
    .bind (Counter.endsIn_add fun hadd => ?_) fun front hfront =>
    .bind (Counter.endsIn_mul fun hmul => ?_) fun units hunits => ?_
  · rw [hchunk] at hmul
    exact ⟨by omega, (if_pos hmul).symm⟩
  · have hlt := chunks.toNat_lt
    rw [hhead, hchunks, hchunk] at hadd
    rw [hchunks, hchunk] at hlt
    exact ⟨by omega, (if_neg (not_le.2 hlt)).symm⟩
  · rw [hunit, UInt32.toNat_toUInt64, unitSlotSize] at hmul
    omega
  · have hlt := chunks.toNat_lt
    rw [hchunks, hchunk] at hlt
    rw [hhead, hchunks, hchunk] at hfront
    rw [hunit, UInt32.toNat_toUInt64] at hunits
    rw [← hfront, ← hunits]
    exact Counter.endsIn_add fun hadd => ⟨hadd, (if_neg (not_le.2 hlt)).symm⟩

/-! ### The header of a file -/

namespace Bytes

theorem extends_fill (b : ByteArray) (size : Nat) : Extends b (fill b size) :=
  ⟨by rw [size_fill]; exact le_max_left .., fun i _ => byte_fill b size i⟩

end Bytes

open Bytes

theorem Table.extends_push {κ ν : Type} {a : SlotArea} {push : ByteArray → Slot κ ν → ByteArray}
    {read : ByteArray → Nat → Slot κ ν} {Fits : Slot κ ν → Prop} (hcodec : Codec a.size push read Fits)
    (t : Table κ ν) (limit : Nat) (b : ByteArray) : Extends b (t.push a push limit b) := by
  unfold Table.push
  refine List.foldlRecOn (motive := Extends b) t.toList _ (.refl b) fun c hc e _ => ?_
  dsimp only
  split_ifs
  · exact (hc.trans (extends_fill ..)).trans (hcodec.extends_push ..)
  · exact hc

namespace Contents

theorem size_toBytes (c : Contents) : c.toBytes.size = c.size := by
  unfold toBytes
  rw [size_fill, ByteArray.size_extract]
  omega

theorem toBytes_ofBytes (b : ByteArray) : (ofBytes b).toBytes = b := by
  show fill (b.extract 0 b.size) b.size = b
  rw [ByteArray.extract_zero_size, fill, Nat.sub_self]
  rfl

/-- The header of a file is in its first bytes, whichever way they are kept. -/
theorem ofBytes_toBytes {c : Contents} (h : headerSize ≤ c.size) : Header.ofBytes c.toBytes = c.header := by
  have hsame : SameAt c.toBytes 0 c.data 0 headerSize := fun k hk => by
    rw [toBytes, byte_fill, byte_extract, if_pos (by omega), Nat.zero_add]
  rw [Header.ofBytes_congr hsame]
  cases c with
  | bytes data size => rfl
  | region r size =>
    have hchunks := r.chunks.extends_push (a := r.layout.chunkArea) chunkSlot_codec r.layout.length
      (Header.push ByteArray.empty r.header)
    have hall := hchunks.trans (r.units.extends_push (a := r.layout.unitArea) unitSlot_codec r.layout.length _)
    have hlong : headerSize ≤ r.layout.length := by
      rw [Layout.length_eq]
      omega
    show Header.ofBytes (r.toBytes r.layout.length) = r.header
    rw [← r.header.ofBytes_push]
    refine Header.ofBytes_congr fun k hk => ?_
    rw [Region.toBytes, byte_extract, if_pos (by omega), Nat.zero_add]
    exact hall.2 (0 + k) (by rw [Header.size_push_empty]; omega)

end Contents

/-! ### Headers and files -/

namespace Header

/-- A header of this library's layout, with slots in both tables. -/
structure Familiar (h : Header) : Prop where
  magic : h.magic = regionMagic
  version : h.formatVersion = ProcProfile.formatVersion
  chunkSlot : h.chunkSlotSize.toNat = ProcProfile.chunkSlotSize
  unitSlot : h.unitSlotSize.toNat = ProcProfile.unitSlotSize
  capacity : h.capacity ≠ 0
  unitCapacity : h.unitCapacity ≠ 0

/-- The slots of which a header tells. -/
def layout (h : Header) : Layout := ⟨h.capacity.toNat, h.unitCapacity.toNat⟩

/-- A header describes a file of a size: the file has room for a header, the header is of this library's layout, and
what it tells of is as long as the file, which is a length that can be counted. -/
structure Describes (h : Header) (size : Nat) (l : Layout) : Prop where
  room : headerSize ≤ size
  familiar : h.Familiar
  layout_eq : l = h.layout
  length : size = l.length
  countable : l.length < 2 ^ 64

/-- A header of this library's layout tells of more than can be counted, and this is what fails. -/
structure Overlong (h : Header) (size : Nat) (f : Fault) : Prop where
  room : headerSize ≤ size
  familiar : h.Familiar
  uncountable : 2 ^ 64 ≤ h.layout.length
  fault : f = h.layout.overflow

/-- Why a file with this header and size is not accepted: its header does not describe it, or tells of too much. -/
inductive Refused (h : Header) (size : Nat) : Stop StoreError → Prop
  | mismatch {text : String} (hd : ∀ l, ¬ h.Describes size l) (ho : ∀ f, ¬ h.Overlong size f) :
      Refused h size (.error (.formatMismatch text))
  | overlong {f : Fault} (ho : h.Overlong size f) : Refused h size (.fault f)

variable {h : Header} {size : Nat} {l : Layout}

theorem Describes.not_overlong {f : Fault} (hd : h.Describes size l) : ¬ h.Overlong size f := by
  intro ho
  have hlt := hd.countable
  rw [hd.layout_eq] at hlt
  exact absurd ho.uncountable (not_le.2 hlt)

theorem Describes.not_refused {stop : Stop StoreError} (hd : h.Describes size l) : ¬ h.Refused size stop := by
  rintro (⟨hnot, -⟩ | ho)
  · exact hnot l hd
  · exact hd.not_overlong ho

theorem Refused.of_unfamiliar (hnot : ¬ (headerSize ≤ size ∧ h.Familiar)) (text : String) :
    h.Refused size (.error (.formatMismatch text)) :=
  .mismatch (fun _ hd => hnot ⟨hd.room, hd.familiar⟩) fun _ ho => hnot ⟨ho.room, ho.familiar⟩

end Header

namespace Layout

variable {path : String} {c : Contents} {l : Layout}

/-- A file is accepted as its header describes it, or refused. -/
theorem endsIn_ofFile (path : String) (c : Contents) :
    EndsIn ((Header.ofBytes c.toBytes).Describes c.toBytes.size) ((Header.ofBytes c.toBytes).Refused c.toBytes.size)
      (Layout.ofFile path c) := by
  rw [Contents.size_toBytes]
  unfold Layout.ofFile
  by_cases hroom : c.size < headerSize
  · rw [if_pos hroom]
    exact .error (.of_unfamiliar (fun h => absurd h.1 (not_le.2 hroom)) _)
  rw [if_neg hroom, ← Contents.ofBytes_toBytes (not_lt.1 hroom)]
  generalize Header.ofBytes c.toBytes = header
  dsimp only
  split_ifs with hmagic hversion hslots hempty
  · exact .error (.of_unfamiliar (fun h => hmagic h.2.magic) _)
  · exact .error (.of_unfamiliar (fun h => hversion h.2.version) _)
  · exact .error (.of_unfamiliar (fun h => hslots.elim (absurd h.2.chunkSlot) (absurd h.2.unitSlot)) _)
  · exact .error (.of_unfamiliar (fun h => hempty.elim h.2.capacity h.2.unitCapacity) _)
  · rw [not_or, not_not, not_not] at hslots
    rw [not_or] at hempty
    have hfamiliar : header.Familiar :=
      ⟨not_not.1 hmagic, not_not.1 hversion, hslots.1, hslots.2, hempty.1, hempty.2⟩
    have hcount := endsIn_regionLength header.capacity header.unitCapacity (l := header.layout) rfl
    refine (Stop.endsIn_ofFault (hcount.imp (fun _ h => h) fun f hf =>
      .overlong ⟨not_lt.1 hroom, hfamiliar, hf.1, hf.2⟩)).bind fun length hlength => ?_
    have hcountable : header.layout.length < 2 ^ 64 := hlength ▸ length.toNat_lt
    split_ifs with hsize
    · refine .error (.mismatch (fun l hl => hsize ?_) fun f hf => absurd hf.uncountable (not_le.2 hcountable))
      rw [hl.length, hl.layout_eq, hlength]
    · exact .ok ⟨not_lt.1 hroom, hfamiliar, rfl, (not_not.1 hsize).trans hlength, hcountable⟩

/-- A file is accepted exactly if its header describes it. -/
theorem ofFile_eq_ok_iff :
    Layout.ofFile path c = .ok l ↔ (Header.ofBytes c.toBytes).Describes c.toBytes.size l := by
  have hjudged := endsIn_ofFile path c
  cases hanswer : Layout.ofFile path c with
  | ok l' =>
    rw [hanswer, endsIn_ok_iff] at hjudged
    rw [Except.ok.injEq]
    constructor
    · rintro rfl
      exact hjudged
    · intro h
      rw [h.layout_eq, hjudged.layout_eq]
  | error stop =>
    rw [hanswer, endsIn_error_iff] at hjudged
    exact iff_of_false nofun fun h => h.not_refused hjudged

/-- The length of a file is not counted exactly if its header tells of too much. -/
theorem ofFile_eq_fault_iff {f : Fault} :
    Layout.ofFile path c = .error (.fault f) ↔ (Header.ofBytes c.toBytes).Overlong c.toBytes.size f := by
  have hjudged := endsIn_ofFile path c
  cases hanswer : Layout.ofFile path c with
  | ok l =>
    rw [hanswer, endsIn_ok_iff] at hjudged
    exact iff_of_false nofun hjudged.not_overlong
  | error stop =>
    rw [hanswer, endsIn_error_iff] at hjudged
    cases hjudged with
    | mismatch _ ho => exact iff_of_false nofun (ho f)
    | overlong ho =>
      constructor
      · rintro ⟨⟩
        exact ho
      · intro h
        rw [h.fault, ho.fault]

end Layout

/-! ### Owner ids -/

namespace Disk

variable {d d' : Disk} {region : String} {file : FileId}

/-- A file that is opened for writing was there, or is new and has the next number. -/
theorem openOrCreate_cases {path : String} {id : FileId} (h : d.openOrCreate path = .ok (d', id)) :
    d' = d ∧ d.openFile path = .ok id ∨ d'.locked = d.locked ∧ id = d.contents.size := by
  obtain ⟨t, ht, hflag, hname, hshort, -⟩ := exists_target_of_openOrCreate h
  have hfind : d.find t = .ok (d.lookup t.names) := if_neg (Nat.not_lt.2 hshort)
  unfold openOrCreate at h
  rw [ht] at h
  change (if t.isDirectory || !t.isName then _ else _) = _ at h
  rw [hflag, hname, if_neg (by simp), hfind] at h
  cases hnode : d.lookup t.names with
  | none =>
    rw [hnode] at h
    cases h
    exact .inr ⟨rfl, rfl⟩
  | some node =>
    rw [hnode] at h
    cases node with
    | dir => cases h
    | file other =>
      cases h
      exact .inl ⟨rfl, Leads.openFile ⟨t, ht, hflag, hname, hshort, hnode⟩⟩

/-- Why no owner id is taken: a token could not be opened, or the ids that were tried are alive, one and all. -/
theorem acquireToken_stops {fuel : Nat} {stop : Stop StoreError} (hlocks : ∀ id ∈ d.locked, id < d.contents.size)
    (hfile : file < d.contents.size) (h : (acquireToken region file fuel d).2 = .error stop) :
    (∃ e, stop = .error (.io e)) ∨ stop = .fault .waiting ∧
      ∀ k < fuel, localOwner < (d.read file).header.nextOwner + 1 + .ofNat k →
        d.ownerAlive region ((d.read file).header.nextOwner + 1 + .ofNat k) = true := by
  induction fuel generalizing d with
  | zero =>
    rw [acquireToken] at h
    cases h
    exact .inr ⟨rfl, fun k hk => absurd hk (Nat.not_lt_zero k)⟩
  | succ fuel ih =>
    rw [acquireToken] at h
    generalize hid : (d.read file).header.nextOwner + 1 = id at h ⊢
    generalize hd : (d.modify file fun c => c.setHeader { (d.read file).header with nextOwner := id }) = d₁ at h
    have hlocked₁ : d₁.locked = d.locked := hd ▸ rfl
    have hsize₁ : d₁.contents.size = d.contents.size := by
      rw [← hd]
      exact Array.size_setIfInBounds ..
    have hnext : (d₁.read file).header.nextOwner = id := by
      rw [← hd, read_modify hfile, Contents.header_setHeader]
    have halive : ∀ owner, d₁.ownerAlive region owner = d.ownerAlive region owner := fun owner => by
      rw [← hd, modify, ownerAlive_write]
    -- if this id cannot be taken, the ids after it are those that are tried next
    have hrest : (localOwner < id → d.ownerAlive region id = true) →
        (acquireToken region file fuel d₁).2 = .error stop →
        (∃ e, stop = .error (.io e)) ∨ stop = .fault .waiting ∧
          ∀ k < fuel + 1, localOwner < id + .ofNat k → d.ownerAlive region (id + .ofNat k) = true := by
      intro hthis hrun
      refine (ih (by rwa [hlocked₁, hsize₁]) (by rwa [hsize₁]) hrun).imp_right fun hwaits =>
        ⟨hwaits.1, fun k hk => ?_⟩
      cases k with
      | zero =>
        rw [show UInt32.ofNat 0 = 0 from rfl, UInt32.add_zero]
        exact hthis
      | succ k =>
        have hsame : id + .ofNat (k + 1) = id + 1 + .ofNat k := by
          rw [UInt32.ofNat_add, UInt32.add_comm (.ofNat k), ← UInt32.add_assoc]
          rfl
        rw [hsame]
        have hk' := hwaits.2 k (Nat.lt_of_succ_lt_succ hk)
        rwa [hnext, halive] at hk'
    split_ifs at h with hlocal
    · exact hrest (fun habove => absurd habove (UInt32.not_lt.2 hlocal)) h
    · split at h
      · cases h
        exact .inl ⟨_, rfl⟩
      · rename_i d₂ token hopen
        split at h
        · rename_i hlock
          have hmem : token ∈ d₂.locked := by
            unfold tryLock isLocked at hlock
            split_ifs at hlock with hcontains
            exact List.contains_iff_mem.1 hcontains
          rcases openOrCreate_cases hopen with ⟨rfl, hfound⟩ | ⟨hlocked, rfl⟩
          · refine hrest (fun _ => ?_) h
            rw [← halive, ownerAlive, hfound]
            exact List.contains_iff_mem.2 hmem
          · rw [hlocked, hlocked₁] at hmem
            exact absurd (hlocks _ hmem) (by rw [hsize₁]; exact Nat.lt_irrefl _)
        · cases h

/-- Who has tried all owner ids has found all of them alive. -/
theorem acquireToken_stops_all {stop : Stop StoreError} (hlocks : ∀ id ∈ d.locked, id < d.contents.size)
    (hfile : file < d.contents.size) (h : (acquireToken region file UInt32.size d).2 = .error stop) :
    (∃ e, stop = .error (.io e)) ∨
      stop = .fault .waiting ∧ ∀ owner, localOwner < owner → d.ownerAlive region owner = true := by
  refine (acquireToken_stops hlocks hfile h).imp_right fun hwaits => ⟨hwaits.1, fun owner habove => ?_⟩
  have hsame : (d.read file).header.nextOwner + 1 + .ofNat (owner - ((d.read file).header.nextOwner + 1)).toNat =
      owner := by
    rw [UInt32.ofNat_toNat, UInt32.add_comm, UInt32.sub_add_cancel]
  have howner := hwaits.2 _ (owner - ((d.read file).header.nextOwner + 1)).toNat_lt
  rw [hsame] at howner
  exact howner habove

end Disk

/-! ### Attaching -/

namespace Host

variable {h : Host} {path : String} {file : FileId} {b : ByteArray}

/-- How an attempt to attach to a file of these bytes stops: the file is refused, or it is accepted but no owner id
can be taken, because a token cannot be opened or because each id has an owner that is alive. -/
inductive AttachStops (h : Host) (path : String) (b : ByteArray) : Stop StoreError → Prop
  | refused {stop : Stop StoreError} (hrefused : (Header.ofBytes b).Refused b.size stop) : AttachStops h path b stop
  | token {l : Layout} {e : DiskError} (haccepted : (Header.ofBytes b).Describes b.size l) :
      AttachStops h path b (.error (.io e))
  | waiting {l : Layout} (haccepted : (Header.ofBytes b).Describes b.size l)
      (halive : ∀ owner, localOwner < owner → h.disk.ownerAlive path owner = true) :
      AttachStops h path b (.fault .waiting)

theorem attach_eq_of_accepted (hleads : h.disk.Leads path file) {l : Layout}
    (haccepted : Layout.ofFile path (h.disk.read file) = .ok l) : h.attach path = h.attachFile path file l := by
  unfold attach
  rw [hleads.openFile]
  dsimp only
  rw [haccepted]

theorem attach_eq_of_refused (hleads : h.disk.Leads path file) {stop : Stop StoreError}
    (hrefused : Layout.ofFile path (h.disk.read file) = .error stop) : h.attach path = (h, .error stop) := by
  unfold attach
  rw [hleads.openFile]
  dsimp only
  rw [hrefused]

/-- A file with contents is opened as it is attached to. -/
theorem openShared_eq_attach (hleads : h.disk.Leads path file) (hsome : 0 < (h.disk.read file).size)
    {capacity unitCapacity : UInt64} (hcapacity : capacity ≠ 0) (hunits : unitCapacity ≠ 0) :
    h.openShared path capacity unitCapacity = h.attach path := by
  unfold openShared attach
  rw [if_neg (not_or.2 ⟨hcapacity, hunits⟩), hleads.openOrCreate, hleads.openFile]
  dsimp only
  rw [if_neg hsome.ne']

/-- A handle on a file that was accepted has its layout; without an owner id there is none. -/
theorem endsIn_attachFile (hlocks : ∀ id ∈ h.disk.locked, id < h.disk.contents.size) {l : Layout}
    (haccepted : (Header.ofBytes (h.disk.read file).toBytes).Describes (h.disk.read file).toBytes.size l) :
    EndsIn (fun s => ∃ a : Attachment, s = .file a ∧ a.file = file ∧ a.path = path ∧ a.layout = l)
      (h.AttachStops path (h.disk.read file).toBytes) (h.attachFile path file l).2 := by
  have hfile : file < h.disk.contents.size := by
    by_contra hbeyond
    have hempty : h.disk.read file = .empty := by
      rw [Disk.read, Array.getD, dif_neg hbeyond]
    have hroom := haccepted.room
    rw [Contents.size_toBytes, hempty] at hroom
    exact absurd hroom (by decide)
  unfold attachFile
  cases hrun : Disk.acquireToken path file UInt32.size h.disk with
  | mk disk answer =>
    cases answer with
    | ok taken => exact .ok ⟨_, rfl, rfl, rfl, rfl⟩
    | error stop =>
      refine .error ?_
      rcases Disk.acquireToken_stops_all hlocks hfile (congrArg Prod.snd hrun) with ⟨e, rfl⟩ | ⟨rfl, halive⟩
      · exact .token haccepted
      · exact .waiting haccepted halive

end Host

open Host

/-- An attempt to attach to a file of any bytes gives a handle with the layout that the header of these bytes tells
of, or stops for one of four reasons, and which of them is told by the bytes: either the header describes the file,
or it tells of slots whose length cannot be counted, or neither.  To open a file that has contents is the same. -/
theorem attach_judges_every_file {h : Host} {path : String} {file : FileId} {b : ByteArray}
    (hleads : h.disk.Leads path file) (hbytes : (h.disk.read file).toBytes = b)
    (hlocks : ∀ id ∈ h.disk.locked, id < h.disk.contents.size) :
    (∀ l, Layout.ofFile path (h.disk.read file) = .ok l ↔ (Header.ofBytes b).Describes b.size l) ∧
    EndsIn (fun s => ∃ a : Attachment, s = .file a ∧ a.file = file ∧ (Header.ofBytes b).Describes b.size a.layout)
      (h.AttachStops path b) (h.attach path).2 ∧
    (∀ f, (Header.ofBytes b).Overlong b.size f → h.attach path = (h, .error (.fault f))) ∧
    ∀ capacity unitCapacity, capacity ≠ 0 → unitCapacity ≠ 0 → 0 < b.size →
      h.openShared path capacity unitCapacity = h.attach path := by
  subst hbytes
  refine ⟨fun l => Layout.ofFile_eq_ok_iff, ?_, fun f hf => ?_, fun capacity unitCapacity hcapacity hunits hsome => ?_⟩
  · have hjudged := Layout.endsIn_ofFile path (h.disk.read file)
    cases hanswer : Layout.ofFile path (h.disk.read file) with
    | ok l =>
      rw [hanswer, endsIn_ok_iff] at hjudged
      rw [attach_eq_of_accepted hleads hanswer]
      refine (endsIn_attachFile hlocks hjudged).imp ?_ fun _ hstop => hstop
      rintro s ⟨a, rfl, hfile, -, rfl⟩
      exact ⟨a, rfl, hfile, hjudged⟩
    | error stop =>
      rw [hanswer, endsIn_error_iff] at hjudged
      rw [attach_eq_of_refused hleads hanswer]
      exact .error (.refused hjudged)
  · exact attach_eq_of_refused hleads (Layout.ofFile_eq_fault_iff.2 hf)
  · rw [Contents.size_toBytes] at hsome
    exact openShared_eq_attach hleads hsome hcapacity hunits

/-- A header of a region whose chunk slots have more bytes than a word can count. -/
def overlongHeader : Header := { Header.new 1 1 with capacity := 0xffffffffffffffff }

/-- A host with a file that holds this header and nothing else. -/
def overlongHost : Host := ⟨⟨[(["region"], .file 0)], #[.ofBytes (Header.push .empty overlongHeader)], []⟩, #[]⟩

theorem leads_overlongHost : overlongHost.disk.Leads "region" 0 :=
  ⟨⟨[], "region", false⟩, rfl, rfl, by decide, by decide, rfl⟩

theorem overlong_overlongHeader : overlongHeader.Overlong headerSize .mulOverflow :=
  ⟨le_rfl, ⟨rfl, rfl, rfl, rfl, by decide, by decide⟩, by decide, by decide⟩

theorem attach_judges_every_file_overlongHost :
    overlongHost.disk.Leads "region" 0 ∧
      (overlongHost.disk.read 0).toBytes = Header.push .empty overlongHeader ∧
      (∀ id ∈ overlongHost.disk.locked, id < overlongHost.disk.contents.size) ∧
      overlongHost.openShared "region" 15000 10000 = (overlongHost, .error (.fault .mulOverflow)) := by
  have hbytes : (overlongHost.disk.read 0).toBytes = Header.push .empty overlongHeader := Contents.toBytes_ofBytes _
  have hlocks : ∀ id ∈ overlongHost.disk.locked, id < overlongHost.disk.contents.size := nofun
  obtain ⟨-, -, hoverlong, hopen⟩ := attach_judges_every_file leads_overlongHost hbytes hlocks
  rw [Header.ofBytes_push, Header.size_push_empty] at hoverlong
  refine ⟨leads_overlongHost, hbytes, hlocks, ?_⟩
  rw [hopen 15000 10000 (by decide) (by decide) (by rw [Header.size_push_empty]; decide)]
  exact hoverlong _ overlong_overlongHeader

/-- There are 64 bytes to which nobody can attach and that no error is told of. -/
theorem overlong_header_not_judged :
    (Header.push .empty overlongHeader).size = 64 ∧
      overlongHost.attach "region" = (overlongHost, .error (.fault .mulOverflow)) := by
  refine ⟨Header.size_push_empty _, attach_eq_of_refused leads_overlongHost (Layout.ofFile_eq_fault_iff.2 ?_)⟩
  rw [show overlongHost.disk.read 0 = .ofBytes (Header.push .empty overlongHeader) from rfl, Contents.toBytes_ofBytes,
    Header.ofBytes_push, Header.size_push_empty]
  exact overlong_overlongHeader

/-! ### Headers of new regions -/

section New

variable {c : Contents} {capacity unitCapacity : UInt64} {length : Counter}

/-- The header that a file of the right length begins with. -/
theorem header_of_start (hsize : c.size = (Layout.ofCapacities capacity unitCapacity).length)
    (hstart : SameAt c.toBytes 0 (Header.push .empty (.new capacity unitCapacity)) 0 headerSize) :
    c.header = .new capacity unitCapacity := by
  have hroom : headerSize ≤ c.size := by
    rw [hsize, Layout.length_eq]
    omega
  rw [← Contents.ofBytes_toBytes hroom, Header.ofBytes_congr hstart, Header.ofBytes_push]

/-- A region with more unit slots than its header can tell is longer than the region of which its header tells. -/
theorem Layout.ofFile_new_of_le (hsize : c.size = (Layout.ofCapacities capacity unitCapacity).length)
    (hheader : c.header = .new capacity unitCapacity) (hcountable : c.size < 2 ^ 64)
    (hmany : 2 ^ 32 ≤ unitCapacity.toNat) (path : String) :
    Layout.ofFile path c = .error (.error (.formatMismatch ("file length " ++ toString c.size ++
      " does not match capacity " ++ toString capacity.toNat ++ "/" ++ toString (unitCapacity.toNat % 2 ^ 32)))) := by
  have hcut : unitCapacity.toUInt32.toNat = unitCapacity.toNat % 2 ^ 32 := UInt64.toNat_toUInt32 _
  have hfewer : (⟨capacity.toNat, unitCapacity.toUInt32.toNat⟩ : Layout).length < c.size := by
    have hlt := unitCapacity.toUInt32.toNat_lt
    rw [hsize, Layout.length_eq, Layout.length_eq]
    simp only [Layout.ofCapacities, unitSlotSize]
    omega
  have hroom : ¬ c.size < headerSize := by
    rw [hsize, Layout.length_eq]
    omega
  unfold Layout.ofFile
  rw [if_neg hroom, hheader]
  dsimp only [Header.new]
  rw [if_neg (by simp), if_neg (by simp), if_neg (by decide), hcut]
  split_ifs
  · rfl
  · have hcount := endsIn_regionLength capacity unitCapacity.toUInt32 rfl
    cases hlength : regionLength capacity unitCapacity.toUInt32.toUInt64 with
    | error f =>
      rw [hlength, endsIn_error_iff] at hcount
      omega
    | ok length =>
      rw [hlength, endsIn_ok_iff] at hcount
      exact if_pos (by omega)

end New

/-- A file that is as long as a region with these capacities and begins with its header is accepted, with these
capacities, exactly if half a word can hold the number of unit slots.  Otherwise the header tells of the remainder, and
that does not match the length. -/
theorem new_header_accepted_iff {c : Contents} {capacity unitCapacity : UInt64} {length : Counter}
    (hcapacity : capacity ≠ 0) (hunits : unitCapacity ≠ 0)
    (hlength : regionLength capacity unitCapacity = .ok length) (hsize : c.toBytes.size = length.toNat)
    (hstart : SameAt c.toBytes 0 (Header.push .empty (.new capacity unitCapacity)) 0 headerSize) (path : String) :
    (Layout.ofFile path c = .ok ⟨capacity.toNat, unitCapacity.toNat⟩ ↔ unitCapacity.toNat < 2 ^ 32) ∧
    (2 ^ 32 ≤ unitCapacity.toNat →
      Layout.ofFile path c = .error (.error (.formatMismatch ("file length " ++ toString length.toNat ++
        " does not match capacity " ++ toString capacity.toNat ++ "/" ++
        toString (unitCapacity.toNat % 2 ^ 32))))) := by
  rw [Contents.size_toBytes] at hsize
  have hslots : c.size = (Layout.ofCapacities capacity unitCapacity).length :=
    hsize.trans (toNat_regionLength hlength)
  have hheader := header_of_start hslots hstart
  have hmany : 2 ^ 32 ≤ unitCapacity.toNat → _ :=
    fun hle => Layout.ofFile_new_of_le hslots hheader (hsize ▸ length.toNat_lt) hle path
  refine ⟨⟨fun haccepted => ?_, fun hfew => ?_⟩, fun hle => hsize ▸ hmany hle⟩
  · by_contra hle
    rw [hmany (not_lt.1 hle)] at haccepted
    cases haccepted
  · exact Layout.ofFile_eq_ok hslots ⟨_, _, _, hheader⟩ hcapacity hunits hfew hlength path

/-- A new file with one chunk slot and as many unit slots as a header can tell. -/
def widestFile : Contents := .bytes (Header.push .empty (.new 1 0xffffffff)) 274877908904

theorem new_header_accepted_iff_widestFile :
    regionLength 1 0xffffffff = .ok 274877908904 ∧ widestFile.toBytes.size = 274877908904 ∧
      SameAt widestFile.toBytes 0 (Header.push .empty (.new 1 0xffffffff)) 0 headerSize ∧
      Layout.ofFile "region" widestFile = .ok ⟨1, 0xffffffff⟩ := by
  have hsize : widestFile.toBytes.size = 274877908904 := Contents.size_toBytes _
  have hstart : SameAt widestFile.toBytes 0 (Header.push .empty (.new 1 0xffffffff)) 0 headerSize := fun k hk => by
    have hlong : 0 + (0 + k) < widestFile.size := by
      show 0 + (0 + k) < 274877908904
      rw [headerSize] at hk
      omega
    rw [Contents.toBytes, byte_fill, byte_extract, if_pos hlong, Nat.zero_add]
    rfl
  exact ⟨rfl, hsize, hstart,
    (new_header_accepted_iff (by decide) (by decide) rfl hsize hstart "region").1.2 (by decide)⟩

/-- A region can be made of which the header tells no unit slots, so that nobody can attach to it. -/
theorem region_made_not_accepted :
    newInFile 1 0x100000000 = .ok (.create 1 0x100000000) ∧
      Layout.ofFile "region" (.ofRegion (.create 1 0x100000000)) =
        .error (.error (.formatMismatch "file length 274877908968 does not match capacity 1/0")) := by
  have hsize : (Contents.ofRegion (.create 1 0x100000000)).size = (Layout.ofCapacities 1 0x100000000).length := rfl
  exact ⟨rfl, Layout.ofFile_new_of_le hsize rfl (by decide) (by decide) "region"⟩

end ProcProfile
