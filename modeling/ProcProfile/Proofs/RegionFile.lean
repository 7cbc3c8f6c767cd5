import Mathlib.Tactic
import ProcProfile.Proofs.Region.Sane
import ProcProfile.Proofs.Requests
import ProcProfile.Proofs.Tokens

/-!
# A region file

What is true of a region file while it is used: its path leads to it, its bytes are those of a region, its header
describes the whole of it, and beside it stand the tokens of those who have it open.

* `FitsPage`, `foldKeeps_fitsPage`: pages that have an image, and stay so when calls are folded into them;
* `Contents.Stores`: a file that holds a region, as itself or as its bytes;
* `Header.Tells`, `Layout.ofFile_eq_ok`: a header that describes its file;
* `Disk.Leads`: a path that leads to a file;
* `Disk.Serves`: all of it, and what keeps it.
-/

namespace ProcProfile

/-! ### Pages that have an image -/

/-- As many records as a chunk has, all of which have an image. -/
def FitsPage (records : List Record) : Prop := records.length = recordsPerChunk ∧ ∀ x ∈ records, x.Fits

theorem Record.fits_ofLine (line : Int32) : (ofLine line).Fits := by
  show (0 : UInt64) &&& 1 = 0
  decide

theorem fitsPage_replicate {x : Record} (h : x.Fits) : FitsPage (List.replicate recordsPerChunk x) := by
  refine ⟨List.length_replicate, fun y hy => ?_⟩
  rw [List.eq_of_mem_replicate hy]
  exact h

/-- Merging keeps what fills the words of a record. -/
theorem Record.Fits.merge {x y z : Record} (h : x.Fits) (hrun : x.merge y = .ok z) : z.Fits := by
  unfold Record.merge at hrun
  obtain ⟨totalTime, -, hrun⟩ := bind_eq_ok_iff.1 hrun
  obtain ⟨rows, -, hrun⟩ := bind_eq_ok_iff.1 hrun
  obtain ⟨execCount, -, hrun⟩ := bind_eq_ok_iff.1 hrun
  obtain ⟨errorCount, -, hrun⟩ := bind_eq_ok_iff.1 hrun
  split_ifs at hrun
  · cases hrun
    exact h
  · cases hrun
    exact h

theorem fits_mergePage {stored call merged : List Record} (h : ∀ x ∈ stored, x.Fits)
    (hrun : Region.mergePage stored call = .ok merged) :
    merged.length = stored.length ∧ ∀ x ∈ merged, x.Fits := by
  induction stored generalizing call merged with
  | nil =>
    rw [Region.mergePage] at hrun
    cases hrun
    exact ⟨rfl, h⟩
  | cons x stored ih =>
    cases call with
    | nil =>
      rw [Region.mergePage] at hrun
      split_ifs at hrun
      cases hrun
      exact ⟨rfl, h⟩
    | cons y call =>
      rw [Region.mergePage] at hrun
      split_ifs at hrun
      obtain ⟨z, hz, hrun⟩ := bind_eq_ok_iff.1 hrun
      obtain ⟨rest, hrest, hrun⟩ := bind_eq_ok_iff.1 hrun
      cases hrun
      obtain ⟨hlength, hfits⟩ := ih (fun w hw => h w (List.mem_cons_of_mem _ hw)) hrest
      refine ⟨by rw [List.length_cons, List.length_cons, hlength], fun w hw => ?_⟩
      rcases List.mem_cons.1 hw with rfl | hw
      · exact (h x List.mem_cons_self).merge (Stop.ofFault_eq_ok_iff.1 hz)
      · exact hfits w hw

theorem foldKeeps_fitsPage {records : List Record} (h : ∀ x ∈ records, x.Fits) :
    Region.FoldKeeps FitsPage records where
  new page hpage := by
    have hshort : page.length ≤ recordsPerChunk := by
      obtain ⟨j, hj⟩ := List.mem_iff_getElem?.1 hpage
      rw [pagesOf, getElem?_cutPages] at hj
      split_ifs at hj
      cases hj
      exact List.length_take_le ..
    refine ⟨length_fillPage hshort, fun x hx => ?_⟩
    rcases List.mem_append.1 hx with hx | hx
    · exact h x (mem_of_mem_cutPages hpage hx)
    · rw [List.eq_of_mem_replicate hx]
      exact Record.fits_ofLine _
  merged stored page merged hstored _ hrun := by
    obtain ⟨hlength, hfits⟩ := fits_mergePage hstored.2 hrun
    exact ⟨hlength.trans hstored.1, hfits⟩

theorem Region.fits_of_slots {r : Region} (h : ∀ i, SlotHolds FitsPage (r.chunks.get i)) : r.Fits := by
  intro i
  obtain ⟨hfiller, hlength, hrecords⟩ := h i
  refine ⟨?_, hlength, hrecords⟩
  unfold ChunkKey.Fits
  rw [hfiller]
  decide

/-! ### Files that hold a region -/

namespace Contents

variable {c c' : Contents} {l : Layout} {r r' q : Region}

/-- A file with a region in it, as itself or as its bytes, of which no lock is taken and of which nothing can be told
apart from `r`. -/
structure Stores (c : Contents) (l : Layout) (r : Region) : Prop where
  isImage : c.IsImage l
  alike : (c.mapped l).Matches r
  free : ∀ place, (c.mapped l).word place = 0
  slots : ∀ i, Region.SlotHolds FitsPage ((c.mapped l).chunks.get i)

/-- Other contents in which the same slots are seen. -/
theorem Stores.of_sameSlots (h : c.Stores l r) (himage : c'.IsImage l) {owner : UInt32}
    (hsame : (c'.mapped l).SameSlots ((c.mapped l).withOwner owner)) : c'.Stores l r where
  isImage := himage
  alike := by
    obtain ⟨last, hheader⟩ := h.alike.header
    refine ⟨⟨owner, ?_⟩, ⟨hsame.chunks.size.trans h.alike.chunks.size, fun i => ?_⟩,
      ⟨hsame.units.size.trans h.alike.units.size, fun i => ?_⟩⟩
    · rw [hsame.header]
      show { (c.mapped l).header with nextOwner := owner } = _
      rw [hheader]
    · rw [hsame.chunks.get i]
      exact h.alike.chunks.slot i
    · rw [hsame.units.get i]
      exact h.alike.units.slot i
  free place := by
    cases place with
    | chunk i => exact (congrArg Slot.mutex (hsame.chunks.get i)).trans (h.free (.chunk i))
    | unit i => exact (congrArg Slot.mutex (hsame.units.get i)).trans (h.free (.unit i))
  slots i := by
    rw [hsame.chunks.get i]
    exact h.slots i

/-- A further owner id is handed out. -/
theorem Stores.setOwner (h : c.Stores l r) (owner : UInt32) :
    (c.setHeader { c.header with nextOwner := owner }).Stores l r := by
  have hsame : ((c.setHeader { c.header with nextOwner := owner }).mapped l).SameSlots
      ((c.mapped l).withOwner owner) := by
    unfold Region.withOwner
    rw [h.isImage.header_mapped]
    exact h.isImage.sameSlots_setHeader _
  exact h.of_sameSlots (h.isImage.setHeader _) hsame

/-- Only the bytes are kept. -/
theorem Stores.flushed (h : c.Stores l r) : c.flushed.Stores l r := by
  have hsame := h.isImage.sameSlots_flushed (Region.fits_of_slots h.slots)
  have hself : (c.mapped l).withOwner (c.mapped l).header.nextOwner = c.mapped l := rfl
  rw [← hself] at hsame
  exact h.of_sameSlots h.isImage.flushed hsame

/-- What an operation leaves behind is written to the file. -/
theorem Stores.operate (h : c.Stores l r) {op : Operation} {o : Owner} {access : Access Answer}
    (hkeeps : op.Keeps FitsPage) (hrun : op.run o (c.mapped l) = .ok access) (halike : access.region.Matches r') :
    (c.writeMapped access.region).Stores l r' := by
  have hframe := Operation.frame hrun
  have hlayout : access.region.layout = l := hframe.layout.trans (layout_mapped c l)
  have hmapped := mapped_writeMapped h.isImage.extent_le hlayout
  have hmoves := Operation.moves hkeeps (fun i => (h.slots i).2) hrun
  refine ⟨h.isImage.writeMapped hlayout, ?_, ?_, ?_⟩
  · rw [hmapped]
    exact halike
  · rw [hmapped]
    exact hframe.free h.free
  · rw [hmapped]
    exact hmoves.slots (fitsPage_replicate (Record.fits_ofLine _)) h.slots

end Contents

/-! ### Headers that describe their file -/

/-- The header of a region with given capacities, whatever is in the region. -/
def Header.Tells (h : Header) (capacity unitCapacity : UInt64) : Prop :=
  ∃ owner used unitsUsed, h = { Header.new capacity unitCapacity with
    nextOwner := owner, used := used, unitsUsed := unitsUsed }

/-- The number of slots that two capacities stand for. -/
def Layout.ofCapacities (capacity unitCapacity : UInt64) : Layout := ⟨capacity.toNat, unitCapacity.toNat⟩

theorem Layout.ofFile_eq_ok {c : Contents} {capacity unitCapacity : UInt64} {length : Counter}
    (hsize : c.size = (Layout.ofCapacities capacity unitCapacity).length)
    (hheader : c.header.Tells capacity unitCapacity) (hcapacity : capacity ≠ 0) (hunits : unitCapacity ≠ 0)
    (hunitsSmall : unitCapacity.toNat < 2 ^ 32) (hlength : regionLength capacity unitCapacity = .ok length)
    (path : String) : Layout.ofFile path c = .ok (Layout.ofCapacities capacity unitCapacity) := by
  obtain ⟨owner, used, unitsUsed, hheader⟩ := hheader
  have hlong : ¬ c.size < headerSize := by
    rw [hsize]
    simp only [Layout.length, Layout.unitOffset]
    omega
  have hword : unitCapacity.toUInt32.toNat = unitCapacity.toNat := by
    rw [UInt64.toNat_toUInt32, Nat.mod_eq_of_lt hunitsSmall]
  have hback : unitCapacity.toUInt32.toUInt64 = unitCapacity := by
    rw [← UInt64.toNat_inj, UInt32.toNat_toUInt64, hword]
  have hpos : unitCapacity.toUInt32 ≠ 0 := by
    intro hzero
    rw [hzero] at hback
    exact hunits hback.symm
  unfold Layout.ofFile
  rw [if_neg hlong, hheader]
  dsimp only [Header.new]
  rw [if_neg (by simp), if_neg (by simp), if_neg (by decide), if_neg (by simp [hcapacity, hpos]), hback, hlength]
  show (if c.size ≠ length.toNat then _ else _) = _
  rw [if_neg]
  · show Except.ok (Layout.mk capacity.toNat unitCapacity.toUInt32.toNat) = _
    rw [hword]
    rfl
  · rw [not_not, hsize, toNat_regionLength hlength]
    rfl

theorem Region.word_create (capacity unitCapacity : UInt64) (place : LockPlace) :
    (create capacity unitCapacity).word place = 0 := by
  cases place with
  | chunk i => exact congrArg Slot.mutex (Table.get_new _ i)
  | unit i => exact congrArg Slot.mutex (Table.get_new _ i)

/-- A new region file. -/
theorem Contents.stores_create (capacity unitCapacity : UInt64) :
    (Contents.ofRegion (.create capacity unitCapacity)).Stores (.ofCapacities capacity unitCapacity)
      (.create capacity unitCapacity) := by
  have hmapped : (Contents.ofRegion (.create capacity unitCapacity)).mapped (.ofCapacities capacity unitCapacity) =
      .create capacity unitCapacity := if_pos rfl
  refine ⟨isImage_ofRegion (.create capacity unitCapacity), ?_, ?_, ?_⟩
  · rw [hmapped]
    exact .refl _
  · rw [hmapped]
    exact Region.word_create capacity unitCapacity
  · rw [hmapped]
    intro i
    show Region.SlotHolds FitsPage ((Table.new capacity.toNat : Table ChunkKey Page).get i)
    rw [Table.get_new]
    exact ⟨rfl, fitsPage_replicate (Record.fits_ofLine 0)⟩

/-! ### Paths that lead to a file -/

namespace Disk

variable {d d' : Disk} {path : String} {file : FileId} {q : TokenPlace} {live : List (UInt32 × FileId)}
  {owner : UInt32} {token : FileId}

/-- A path that leads to a file which can be opened for writing. -/
def Leads (d : Disk) (path : String) (file : FileId) : Prop :=
  ∃ t, d.target path = .ok t ∧ t.isDirectory = false ∧ t.isName = true ∧ t.part.utf8ByteSize ≤ maxNameBytes ∧
    d.lookup t.names = some (.file file)

theorem Leads.openOrCreate (h : d.Leads path file) : d.openOrCreate path = .ok (d, file) := by
  obtain ⟨t, ht, hflag, hname, hshort, hnode⟩ := h
  unfold Disk.openOrCreate
  rw [ht]
  show (if t.isDirectory || !t.isName then _ else _) = _
  rw [hflag, hname, if_neg (by simp), find, if_neg (Nat.not_lt.2 hshort), hnode]
  rfl

theorem Leads.resolve (h : d.Leads path file) : ∃ names, d.resolve path = .ok (names, .file file) := by
  obtain ⟨t, ht, hflag, -, hshort, hnode⟩ := h
  exact ⟨t.names, resolve_ok_iff.2 ⟨t, ht, hshort, hnode, rfl, fun _ => hflag⟩⟩

theorem Leads.openFile (h : d.Leads path file) : d.openFile path = .ok file := by
  obtain ⟨names, hresolve⟩ := h.resolve
  rw [Disk.openFile, hresolve]
  rfl

/-- A path leads to the file that was opened for writing or made. -/
theorem leads_of_openOrCreate (h : d.openOrCreate path = .ok (d', file)) : d'.Leads path file := by
  obtain ⟨t, ht, hflag, hname, hshort, hdir⟩ := exists_target_of_openOrCreate h
  have htop : t.names.isTop = false := by
    by_contra htop
    rw [Bool.not_eq_false] at htop
    exact hdir (by rw [lookup, if_pos htop])
  unfold openOrCreate at h
  rw [ht] at h
  change (if t.isDirectory || !t.isName then _ else _) = _ at h
  rw [hflag, hname, if_neg (by simp), find, if_neg (Nat.not_lt.2 hshort)] at h
  cases hnode : d.lookup t.names with
  | none =>
    rw [hnode] at h
    cases h
    have hdirs : SameDirs d (Disk.bind { d with contents := d.contents.push .empty } t.names
        (.file d.contents.size)) := sameDirs_bind (d := { d with contents := d.contents.push .empty }) htop hdir _
    refine ⟨t, target_of_sameDirs hdirs ht, hflag, hname, hshort, ?_⟩
    rw [lookup_bind _ htop, if_pos rfl]
  | some node =>
    rw [hnode] at h
    cases node with
    | dir => exact absurd hnode hdir
    | file id =>
      cases h
      exact ⟨t, ht, hflag, hname, hshort, hnode⟩

/-- Tokens come and go, and the path of a region leads where it led. -/
theorem Leads.of_sameDirs (h : d.Leads path file) (hdirs : SameDirs d d')
    (hnames : ∀ t, d.target path = .ok t → t.isDirectory = false → t.isName = true →
      d'.lookup t.names = d.lookup t.names) : d'.Leads path file := by
  obtain ⟨t, ht, hflag, hname, hshort, hnode⟩ := h
  exact ⟨t, target_of_sameDirs hdirs ht, hflag, hname, hshort, by rw [hnames t ht hflag hname, hnode]⟩

/-- Neither contents nor locks of files have to do with where a path leads. -/
theorem Leads.of_entries (h : d.Leads path file) (hentries : d'.entries = d.entries) : d'.Leads path file := by
  have hlookup : ∀ names, d'.lookup names = d.lookup names := by
    intro names
    unfold lookup
    rw [hentries]
  exact h.of_sameDirs (fun names => by rw [hlookup]) fun _ _ _ _ => hlookup _

theorem Leads.write (h : d.Leads path file) (id : FileId) (c : Contents) : (d.write id c).Leads path file :=
  h.of_entries rfl

theorem Leads.unlinkToken (h : d.Leads path file) (hplace : d.TokensAt path q) (owner : UInt32) :
    (d.unlink (tokenPath path owner)).Leads path file := by
  cases hid : d.token? q owner with
  | none =>
    rw [hplace.unlink_of_none hid]
    exact h
  | some id =>
    rw [hplace.unlink_of_some hid]
    refine h.of_sameDirs (sameDirs_unbind (q.isTop_names owner) (hplace.no_dir owner)) fun t ht hflag hname => ?_
    rw [lookup_unbind d (q.isTop_names owner), if_neg (hplace.names_ne ht hflag hname owner)]

/-- Whoever asks for an owner id, the path of the region leads where it led. -/
theorem Leads.acquireToken (h : d.Leads path file) (hplace : d.TokensAt path q) (fuel : Nat) :
    (acquireToken path file fuel d).1.Leads path file := by
  induction fuel generalizing d with
  | zero => exact h
  | succ fuel ih =>
    rw [Disk.acquireToken]
    generalize (d.read file).header = header
    have h₁ := h.write file ((d.read file).setHeader { header with nextOwner := header.nextOwner + 1 })
    have hplace₁ : (d.write file ((d.read file).setHeader { header with nextOwner := header.nextOwner + 1 })).TokensAt
        path q := hplace.of_sameDirs fun _ => .rfl
    rw [Disk.modify]
    generalize d.write file ((d.read file).setHeader { header with nextOwner := header.nextOwner + 1 }) = d₁ at *
    generalize header.nextOwner + 1 = owner
    split_ifs
    · exact ih h₁ hplace₁
    · cases hid : d₁.token? q owner with
      | some id =>
        rw [hplace₁.openOrCreate_of_some hid]
        dsimp only
        unfold tryLock
        split_ifs
        · exact ih h₁ hplace₁
        · exact h₁.of_entries rfl
      | none =>
        rw [hplace₁.openOrCreate_of_none hid]
        have hdirs := sameDirs_bind (d := { d₁ with contents := d₁.contents.push .empty }) (q.isTop_names owner)
          (hplace₁.no_dir owner) d₁.contents.size
        have h₂ : (Disk.bind { d₁ with contents := d₁.contents.push .empty } (q.names owner)
            (.file d₁.contents.size)).Leads path file := by
          refine h₁.of_sameDirs hdirs fun t ht hflag hname => ?_
          rw [lookup_bind _ (q.isTop_names owner), if_neg (hplace₁.names_ne ht hflag hname owner)]
          rfl
        dsimp only
        unfold tryLock
        split_ifs
        · exact ih h₂ (hplace₁.of_sameDirs hdirs)
        · exact h₂.of_entries rfl

/-! ### All of it -/

variable {l : Layout} {r r' : Region}

/-- A region file that is used: the owners `live` have it open, and nothing in it can be told apart from `r`. -/
structure Serves (d : Disk) (path : String) (q : TokenPlace) (file : FileId) (live : List (UInt32 × FileId))
    (l : Layout) (r : Region) : Prop where
  attached : d.Attached path q live
  leads : d.Leads path file
  lt_size : file < d.contents.size
  stores : (d.read file).Stores l r

/-- The contents of the file change. -/
theorem Serves.modify (h : d.Serves path q file live l r) {f : Contents → Contents}
    (hf : (f (d.read file)).Stores l r') : (d.modify file f).Serves path q file live l r' where
  attached := h.attached.modify file f
  leads := h.leads.write file _
  lt_size := h.lt_size.trans_eq (Array.size_setIfInBounds ..).symm
  stores := by
    rw [read_modify h.lt_size]
    exact hf

/-- A file without contents becomes a region file. -/
theorem serves_create {d₀ : Disk} {capacity unitCapacity : UInt64} (hopen : d₀.openOrCreate path = .ok (d, file))
    (hfile : file < d.contents.size) (hattached : d.Attached path q live) :
    (d.write file (.ofRegion (.create capacity unitCapacity))).Serves path q file live
      (.ofCapacities capacity unitCapacity) (.create capacity unitCapacity) where
  attached := hattached.modify file fun _ => .ofRegion (.create capacity unitCapacity)
  leads := (leads_of_openOrCreate hopen).write file _
  lt_size := hfile.trans_eq (Array.size_setIfInBounds ..).symm
  stores := by
    have hread : (d.write file (.ofRegion (.create capacity unitCapacity))).read file = _ :=
      read_modify hfile fun _ => .ofRegion (.create capacity unitCapacity)
    rw [hread]
    exact Contents.stores_create capacity unitCapacity

/-- Whoever asks for an owner id in vain leaves all as it is. -/
theorem Attached.of_acquire_error {fuel : Nat} {e : Stop StoreError} (h : d.Attached path q live)
    (hfile : file < d.contents.size) (hrun : Disk.acquireToken path file fuel d = (d', .error e)) :
    d'.Attached path q live := by
  induction fuel generalizing d with
  | zero =>
    rw [Disk.acquireToken] at hrun
    cases hrun
    exact h
  | succ fuel ih =>
    rcases h.acquire_succ hfile rfl fuel with ⟨d₁, taken, htaken, -⟩ | ⟨-, d₁, hnext, h₁, hfile₁, -⟩
    · cases htaken.symm.trans hrun
    · exact ih h₁ hfile₁ (hnext.symm.trans hrun)

/-- An owner id is handed out, or none is left. -/
theorem Serves.acquireToken (h : d.Serves path q file live l r) (fuel : Nat) :
    (∃ d' owner token, Disk.acquireToken path file fuel d = (d', .ok (owner, token)) ∧
      d'.Serves path q file ((owner, token) :: live) l r) ∨
    ∃ d' e, Disk.acquireToken path file fuel d = (d', .error e) ∧ d'.Serves path q file live l r := by
  have hkeeps := acquireToken_keeps (P := fun c => c.Stores l r) (fun c owner hc => hc.setOwner owner) h.lt_size
    h.stores path fuel
  have hleads := h.leads.acquireToken h.attached.place fuel
  cases hrun : Disk.acquireToken path file fuel d with
  | mk d' answer =>
    rw [hrun] at hkeeps hleads
    cases answer with
    | ok a => exact .inl ⟨d', a.1, a.2, rfl, h.attached.of_acquire h.lt_size hrun, hleads, hkeeps.2, hkeeps.1⟩
    | error e => exact .inr ⟨d', e, rfl, h.attached.of_acquire_error h.lt_size hrun, hleads, hkeeps.2, hkeeps.1⟩

/-- An owner closes its handle. -/
theorem Serves.releaseToken (h : d.Serves path q file live l r) (hmem : (owner, token) ∈ live) :
    (d.releaseToken path owner token).Serves path q file (others live owner) l r where
  attached := h.attached.close hmem
  leads := by
    have hunlocked : (d.unlock token).Leads path file := h.leads.of_entries rfl
    exact hunlocked.unlinkToken (h.attached.crash hmem).place owner
  lt_size := by
    rw [Disk.releaseToken, contents_unlink]
    exact h.lt_size
  stores := by
    rw [Disk.releaseToken, read_unlink]
    exact h.stores

end Disk

/-! ### Opening -/

namespace Host

variable {h : Host} {path : String} {file : FileId} {q : TokenPlace} {live : List (UInt32 × FileId)} {l : Layout}
  {r : Region}

/-- A handle is given out, or no owner id is left. -/
theorem attachFile_serves (hd : h.disk.Serves path q file live l r) :
    (∃ disk owner token,
      h.attachFile path file l = ({ h with disk := disk }, .ok (.file ⟨file, path, l, owner, token⟩)) ∧
      disk.Serves path q file ((owner, token) :: live) l r) ∨
    ∃ disk e, h.attachFile path file l = ({ h with disk := disk }, .error e) ∧ disk.Serves path q file live l r := by
  unfold attachFile
  rcases hd.acquireToken UInt32.size with ⟨disk, owner, token, hrun, hd'⟩ | ⟨disk, e, hrun, hd'⟩
  · rw [hrun]
    exact .inl ⟨disk, owner, token, rfl, hd'⟩
  · rw [hrun]
    exact .inr ⟨disk, e, rfl, hd'⟩

/-- A handle is given out while an owner id is left. -/
theorem attachFile_eq_ok (hd : h.disk.Serves path q file live l r) (hfew : live.length < 2 ^ 32 - 2) :
    ∃ disk owner token,
      h.attachFile path file l = ({ h with disk := disk }, .ok (.file ⟨file, path, l, owner, token⟩)) ∧
      disk.Serves path q file ((owner, token) :: live) l r := by
  rcases attachFile_serves hd with hok | ⟨disk, e, hrun, -⟩
  · exact hok
  · obtain ⟨disk', owner, token, hacquire⟩ := hd.attached.exists_acquire hd.lt_size hfew
    unfold attachFile at hrun
    rw [hacquire] at hrun
    cases hrun

end Host

end ProcProfile
