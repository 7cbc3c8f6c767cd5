import Mathlib.Tactic
import ProcProfile.Host
import ProcProfile.Proofs.Region.ChunkMap
import ProcProfile.Proofs.Region.Summaries

/-!
# Regions in files

A file holds a region, with the owner id that was handed out last in its header.  Handing out a further one, and
giving tokens back, leaves all else of the region as it is; an operation through a handle is seen in the file.

* `Region.withOwner`, `Region.sameView_withOwner`: nothing that is read depends on the owner ids handed out;
* `Region.Measured`: the header tells the number of chunk slots, whatever is requested of a store;
* `Disk.HoldsRegion`: a file with a region in it;
* `Disk.HoldsRegion.acquireToken`, `Host.attach_cases`: opening a region in a file;
* `Host.perform_file`, `Host.holdsRegion_release`: using it and giving it up.
-/

namespace ProcProfile

namespace Region

variable {r r' : Region}

/-! ### Owner ids -/

/-- A region of which another owner id was handed out last. -/
def withOwner (r : Region) (owner : UInt32) : Region :=
  { r with header := { r.header with nextOwner := owner } }

theorem Settled.withOwner (h : r.Settled) (owner : UInt32) : (r.withOwner owner).Settled :=
  ⟨⟨h.sound.chunks, h.sound.units⟩, h.chunk_unlocked, h.unit_unlocked⟩

/-- Nothing that is read depends on the owner ids. -/
theorem sameView_withOwner (h : r.Settled) (owner : UInt32) : SameView r (r.withOwner owner) where
  dump := rfl
  info _ := rfl
  findChunk o id number := by
    rw [(reads_findChunk (h.withOwner owner) o id number).answer_eq, (reads_findChunk h o id number).answer_eq]
    rfl
  readRecords o id := by
    have hstored : (r.withOwner owner).storedRecords id = r.storedRecords id :=
      storedRecords_congr fun _ _ => rfl
    rw [(reads_readRecords (h.withOwner owner) o id).answer_eq, (reads_readRecords h o id).answer_eq, hstored]
  summary o key := by
    rw [summary?_answer (h.withOwner owner), summary?_answer h]
    rfl
  summaries o := by
    rw [summaries_answer (h.withOwner owner), summaries_answer h]
    rfl
  summariesOf o db := by
    rw [summariesOf_answer (h.withOwner owner), summariesOf_answer h]
    rfl

/-! ### The number of slots -/

/-- The header tells the number of chunk slots. -/
def Measured (r : Region) : Prop := r.header.capacity.toNat = r.capacity

theorem measured_create (capacity unitCapacity : UInt64) : (create capacity unitCapacity).Measured := rfl

theorem Measured.insert (h : r.Measured) (key : ChunkKey) : (r.insert key).1.Measured := by
  unfold Region.insert
  split
  · exact h
  · exact h
  · exact h.trans (Table.size_place ..).symm

theorem Measured.remove (h : r.Measured) (i : Nat) : (r.remove i).Measured := by
  unfold Region.remove
  split_ifs
  · exact h.trans (Table.size_remove ..).symm
  · exact h

theorem Measured.removeAll (h : r.Measured) (slots : List Nat) : (slots.foldl Region.remove r).Measured := by
  induction slots generalizing r with
  | nil => exact h
  | cons i slots ih => exact ih (h.remove i)

theorem Measured.writePage (h : r.Measured) (i : Nat) (records : List Record) :
    (r.writePage i records).Measured :=
  h.trans (Table.size_write ..).symm

theorem Measured.writePages (h : r.Measured) (writes : List (Nat × List Record)) :
    (r.writePages writes).Measured := by
  unfold Region.writePages
  induction writes generalizing r with
  | nil => exact h
  | cons w writes ih => exact ih (h.writePage w.1 w.2)

theorem Measured.createChunks {pages : List (List Record)} {key : ChunkKey} {created : List Nat}
    {answer : Except StoreError Unit} (h : r.Measured)
    (hrun : createChunks pages key created r = .ok (r', answer)) : r'.Measured := by
  induction pages generalizing r key created with
  | nil =>
    cases hrun
    exact h
  | cons page pages ih =>
    rw [Region.createChunks] at hrun
    have hinsert := h.insert key
    cases hr : r.insert key with
    | mk r₁ out =>
      rw [hr] at hrun hinsert
      cases out with
      | error e =>
        cases hrun
        exact hinsert.removeAll created
      | ok i =>
        obtain ⟨next, -, hrun⟩ := bind_eq_ok_iff.1 hrun
        exact ih (hinsert.writePage i (fillPage page)) hrun

theorem Measured.mergeInto {records : List Record} {key : ChunkKey} {i : Nat}
    {answer : Except StoreError Unit} (h : r.Measured) (hrun : mergeInto records key i r = .ok (r', answer)) :
    r'.Measured := by
  unfold Region.mergeInto at hrun
  split at hrun
  · cases hrun
    exact h
  · split at hrun
    · cases hrun
      exact h.writePages _
    · cases hrun
      exact h
    · cases hrun

theorem Measured.withChunk {α : Type} {o : Owner} {i : Nat} {body : Region → Except Fault (Region × α)}
    {access : Access α} (h : r.Measured)
    (hbody : ∀ q q' answer, q.Measured → body q = .ok (q', answer) → q'.Measured)
    (hrun : r.withChunk o i body = .ok access) : access.region.Measured := by
  obtain ⟨retired, -, hrun⟩ := bind_eq_ok_iff.1 hrun
  obtain ⟨⟨q, answer⟩, hq, hrun⟩ := bind_eq_ok_iff.1 hrun
  cases hrun
  have hlocked : Measured { r with chunks := r.chunks.setMutex i o.id } := h.trans (Table.size_setMutex ..).symm
  exact (hbody _ q answer hlocked hq).trans (Table.size_setMutex ..).symm

theorem Measured.removeChain {fuel : Nat} {key : ChunkKey} {removed n : Nat} (h : r.Measured)
    (hrun : removeChain fuel key removed r = .ok (r', n)) : r'.Measured := by
  induction fuel generalizing r key removed with
  | zero =>
    cases hrun
    exact h
  | succ fuel ih =>
    rw [Region.removeChain] at hrun
    split at hrun
    · cases hrun
      exact h
    · obtain ⟨next, -, hrun⟩ := bind_eq_ok_iff.1 hrun
      exact ih (h.remove _) hrun

/-- Whatever is requested, the header tells the number of chunk slots afterwards. -/
theorem Measured.serve (h : r.Measured) {request : StoreRequest} (hrun : r.serve request = .ok r') :
    r'.Measured := by
  by_cases hchunks : request.OnChunks
  · cases request with
    | fold o id records =>
      obtain ⟨access, hfold, rfl⟩ := map_eq_ok_iff.1 hrun
      unfold Region.fold at hfold
      split at hfold
      · exact h.withChunk (fun _ _ _ hq hbody => hq.mergeInto hbody) hfold
      · obtain ⟨⟨q, answer⟩, hcreate, hfold⟩ := bind_eq_ok_iff.1 hfold
        cases hfold
        exact h.createChunks hcreate
    | insertChunk id number =>
      cases hrun
      have hinsert := h.insert (.new id number)
      unfold Region.insertChunk
      dsimp only
      cases hr : r.insert (.new id number) with
      | mk r₁ out =>
        rw [hr] at hinsert
        cases out <;> exact hinsert
    | reset scope =>
      obtain ⟨⟨q, n⟩, hreset, rfl⟩ := map_eq_ok_iff.1 hrun
      cases scope with
      | all =>
        cases hreset
        exact h.trans (Table.size_clear ..).symm
      | incarnation id => exact h.removeChain hreset
      | unit key =>
        cases hreset
        exact h.removeAll _
    | findChunk o id number =>
      obtain ⟨access, hfind, rfl⟩ := map_eq_ok_iff.1 hrun
      unfold Region.findChunk at hfind
      dsimp only at hfind
      split at hfind
      · cases hfind
        exact h
      · split at hfind
        · cases hfind
          exact h
        · refine h.withChunk (fun _ _ _ hq hbody => ?_) hfind
          cases hbody
          exact hq
    | readRecords o id =>
      obtain ⟨access, hread, rfl⟩ := map_eq_ok_iff.1 hrun
      unfold Region.readRecords at hread
      split at hread
      · cases hread
        exact h
      · refine h.withChunk (fun _ _ _ hq hbody => ?_) hread
        obtain ⟨records, -, hbody⟩ := bind_eq_ok_iff.1 hbody
        cases hbody
        exact hq
    | recordCall | resetStats | summary | summaries => exact hchunks.elim
  · -- a request about calls changes neither the header's capacity nor the chunk slots
    rw [← eq_withUnits_of_serve hchunks hrun]
    exact h

theorem Measured.serveAll (h : r.Measured) {requests : List StoreRequest}
    (hrun : serveAll requests r = .ok r') : r'.Measured := by
  unfold Region.serveAll at hrun
  induction requests generalizing r with
  | nil =>
    cases hrun
    exact h
  | cons request requests ih =>
    rw [List.foldlM_cons] at hrun
    obtain ⟨r₁, hserve, hrun⟩ := bind_eq_ok_iff.1 hrun
    exact ih (h.serve hserve) hrun

end Region

/-! ### Files -/

namespace Disk

variable {d d' : Disk} {file : FileId} {r : Region}

/-- A file holds a region, with any owner id handed out last. -/
def HoldsRegion (d : Disk) (file : FileId) (r : Region) : Prop :=
  ∃ owner, d.read file = .ofRegion (r.withOwner owner)

theorem HoldsRegion.lt_size (h : d.HoldsRegion file r) : file < d.contents.size := by
  obtain ⟨owner, hread⟩ := h
  by_contra hge
  rw [read, Array.getD, dif_neg hge] at hread
  cases hread

theorem HoldsRegion.of_read (h : d.HoldsRegion file r) (hread : d'.read file = d.read file) :
    d'.HoldsRegion file r := by
  obtain ⟨owner, howner⟩ := h
  exact ⟨owner, hread.trans howner⟩

theorem read_write (hlt : file < d.contents.size) (c : Contents) : (d.write file c).read file = c := by
  rw [read, write, Array.getD_eq_getD_getElem?, Array.getElem?_setIfInBounds_self_of_lt hlt, Option.getD_some]

theorem read_modify (hlt : file < d.contents.size) (f : Contents → Contents) :
    (d.modify file f).read file = f (d.read file) :=
  read_write hlt _

theorem read_openOrCreate {path : String} {id : FileId} (hrun : d.openOrCreate path = .ok (d', id))
    (hlt : file < d.contents.size) : d'.read file = d.read file := by
  unfold openOrCreate at hrun
  obtain ⟨t, -, hrun⟩ := bind_eq_ok_iff.1 hrun
  split_ifs at hrun
  obtain ⟨node, -, hrun⟩ := bind_eq_ok_iff.1 hrun
  split at hrun
  · cases hrun
    change (d.contents.push Contents.empty).getD file Contents.empty = _
    rw [Array.getD_eq_getD_getElem?, Array.getElem?_push_lt hlt, read, Array.getD_eq_getD_getElem?,
      Array.getElem?_eq_getElem hlt]
  · cases hrun
  · cases hrun
    rfl

theorem size_openOrCreate_le {path : String} {id : FileId} (hrun : d.openOrCreate path = .ok (d', id)) :
    d.contents.size ≤ d'.contents.size := by
  unfold openOrCreate at hrun
  obtain ⟨t, -, hrun⟩ := bind_eq_ok_iff.1 hrun
  split_ifs at hrun
  obtain ⟨node, -, hrun⟩ := bind_eq_ok_iff.1 hrun
  split at hrun
  · cases hrun
    exact (Nat.le_succ _).trans_eq (Array.size_push ..).symm
  · cases hrun
  · cases hrun
    exact le_rfl

/-- Whoever asks for an owner id, nothing is written into the file but owner ids. -/
theorem acquireToken_keeps {P : Contents → Prop}
    (hP : ∀ c owner, P c → P (c.setHeader { c.header with nextOwner := owner })) (hlt : file < d.contents.size)
    (h : P (d.read file)) (region : String) (fuel : Nat) :
    P ((acquireToken region file fuel d).1.read file) ∧
      file < (acquireToken region file fuel d).1.contents.size := by
  induction fuel generalizing d with
  | zero => exact ⟨h, hlt⟩
  | succ fuel ih =>
    rw [Disk.acquireToken]
    generalize hid : (d.read file).header.nextOwner + 1 = next
    generalize hd : (d.modify file fun c => c.setHeader { (d.read file).header with nextOwner := next }) = d₁
    have h₁ : P (d₁.read file) := by
      rw [← hd, read_modify hlt]
      exact hP _ next h
    have hlt₁ : file < d₁.contents.size := by
      rw [← hd]
      exact hlt.trans_eq (Array.size_setIfInBounds ..).symm
    split_ifs
    · exact ih hlt₁ h₁
    · split
      · exact ⟨h₁, hlt₁⟩
      · rename_i d₂ token hcreate
        have h₂ : P (d₂.read file) := by rwa [read_openOrCreate hcreate hlt₁]
        have hlt₂ := hlt₁.trans_le (size_openOrCreate_le hcreate)
        split
        · exact ih hlt₂ h₂
        · rename_i d₃ hlock
          unfold tryLock at hlock
          split_ifs at hlock
          cases hlock
          exact ⟨h₂, hlt₂⟩

/-- Whoever asks for an owner id, the region stays. -/
theorem HoldsRegion.acquireToken (h : d.HoldsRegion file r) (region : String) (fuel : Nat) :
    (acquireToken region file fuel d).1.HoldsRegion file r := by
  refine (acquireToken_keeps (P := fun c => ∃ owner, c = .ofRegion (r.withOwner owner)) ?_ h.lt_size h region fuel).1
  rintro c owner ⟨last, rfl⟩
  exact ⟨owner, rfl⟩

theorem contents_unlink (d : Disk) (path : String) : (d.unlink path).contents = d.contents := by
  unfold unlink
  split <;> rfl

theorem read_unlink (d : Disk) (path : String) (file : FileId) : (d.unlink path).read file = d.read file := by
  unfold read
  rw [contents_unlink]

end Disk

/-! ### Opening -/

theorem Counter.toNat_of_mul {a b c : Counter} (h : Counter.mul a b = .ok c) : c.toNat = a.toNat * b.toNat := by
  unfold Counter.mul at h
  split_ifs at h with hlt
  cases h
  rw [UInt64.toNat_mul, Nat.mod_eq_of_lt hlt]

theorem toNat_regionLength {capacity unitCapacity : UInt64} {length : Counter}
    (h : regionLength capacity unitCapacity = .ok length) :
    length.toNat = (⟨capacity.toNat, unitCapacity.toNat⟩ : Layout).length := by
  obtain ⟨chunks, hchunks, h⟩ := bind_eq_ok_iff.1 h
  obtain ⟨front, hfront, h⟩ := bind_eq_ok_iff.1 h
  obtain ⟨units, hunits, h⟩ := bind_eq_ok_iff.1 h
  rw [Counter.add_eq_ok] at hfront h
  rw [h, hfront, Counter.toNat_of_mul hchunks, Counter.toNat_of_mul hunits]
  rfl

/-- The layout that is found in a file is that of the region in it. -/
theorem Layout.ofFile_ofRegion {r : Region} (h : r.Measured) {path : String} {l : Layout}
    (hrun : Layout.ofFile path (.ofRegion r) = .ok l) : l = r.layout := by
  unfold Layout.ofFile at hrun
  dsimp only at hrun
  split_ifs at hrun
  obtain ⟨length, hlength, hrun⟩ := bind_eq_ok_iff.1 hrun
  split_ifs at hrun with hsize
  cases hrun
  have hbytes := toNat_regionLength (Stop.ofFault_eq_ok_iff.1 hlength)
  -- the slots of both tables fill the file, and the header tells those of one of them
  have hunits : r.header.unitCapacity.toNat = r.unitCapacity := by
    have hsame : r.layout.length = (⟨r.header.capacity.toNat, r.header.unitCapacity.toUInt64.toNat⟩ : Layout).length :=
      (not_not.1 hsize).trans hbytes
    rw [h, UInt32.toNat_toUInt64] at hsame
    simp only [Layout.length, Layout.unitOffset, Region.layout, unitSlotSize] at hsame
    omega
  change (⟨r.header.capacity.toNat, r.header.unitCapacity.toNat⟩ : Layout) = _
  rw [h, hunits]
  rfl

namespace Host

variable {h : Host} {file : FileId} {r q : Region}

/-- A region in a file that is opened stays in it; the handle has its layout. -/
theorem attach_cases {path : String} (hopen : h.disk.openFile path = .ok file) (hr : r.Measured)
    (hfile : h.disk.HoldsRegion file r) :
    (h.attach path).1.disk.HoldsRegion file r ∧
    ((∃ e, (h.attach path).2 = .error e) ∨
      ∃ owner token, (h.attach path).2 = .ok (.file ⟨file, path, r.layout, owner, token⟩)) := by
  unfold attach
  rw [hopen]
  dsimp only
  cases hlayout : Layout.ofFile path (h.disk.read file) with
  | error e => exact ⟨hfile, .inl ⟨e, rfl⟩⟩
  | ok l =>
    have hl : l = r.layout := by
      obtain ⟨owner, hread⟩ := hfile
      rw [hread] at hlayout
      exact Layout.ofFile_ofRegion (r := r.withOwner owner) hr hlayout
    subst hl
    dsimp only
    unfold attachFile
    generalize UInt32.size = fuel
    have htoken := hfile.acquireToken path fuel
    cases hrun : Disk.acquireToken path file fuel h.disk with
    | mk disk answer =>
      rw [hrun] at htoken
      cases answer with
      | error e => exact ⟨htoken, .inl ⟨e, rfl⟩⟩
      | ok found => exact ⟨htoken, .inr ⟨found.1, found.2, rfl⟩⟩

/-- An operation through a handle is seen in the file. -/
theorem perform_file {α : Type} {a : Attachment} (hlayout : a.layout = r.layout)
    (hfile : h.disk.HoldsRegion a.file r) {op : Owner → Region → Except Fault (Access α)} {answer : α}
    (hop : ∀ o owner, op o (r.withOwner owner) = .ok (.pure (q.withOwner owner) answer))
    (hq : q.layout = r.layout) :
    (h.perform (.file a) op).2 = .ok answer ∧ (h.perform (.file a) op).1.disk.HoldsRegion a.file q := by
  have hlt := hfile.lt_size
  obtain ⟨owner, hread⟩ := hfile
  have hregion : h.region (.file a) = r.withOwner owner := by
    rw [region, hread]
    exact if_pos hlayout.symm
  unfold perform
  rw [hregion]
  dsimp only
  rw [hop]
  refine ⟨rfl, owner, ?_⟩
  change (h.disk.modify a.file fun c => c.writeMapped (q.withOwner owner)).read a.file = _
  rw [Disk.read_modify hlt, hread]
  have hlength : (q.withOwner owner).layout.length = (r.withOwner owner).layout.length :=
    congrArg Layout.length hq
  have hextent : (Contents.ofRegion (r.withOwner owner)).extent = (r.withOwner owner).layout.length := rfl
  unfold Contents.writeMapped
  dsimp only
  rw [hlength, hextent, if_pos le_rfl, Contents.ofRegion, Contents.ofRegion, hlength]
  rfl

theorem holdsRegion_release {a : Attachment} (hfile : h.disk.HoldsRegion file r) :
    (h.release (.file a)).disk.HoldsRegion file r :=
  hfile.of_read (Disk.read_unlink _ _ _)

end Host

end ProcProfile
