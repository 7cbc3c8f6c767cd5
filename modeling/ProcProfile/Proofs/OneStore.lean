import Mathlib.Tactic
import ProcProfile.Proofs.RegionFile

/-!
# A region file is one store

Many handles may be open on one region file, at once or one after another, and each of them was opened with its own
wishes for the size of the region.  Whatever is asked through them is answered as by one store in memory that has the
size the file was made with, also if at some time nobody has the file open, and whether the file is kept as a region
or as its bytes.

* `Fileable`: the sizes that a region file can have;
* `Host.attach_eq`, `Host.openShared_eq`: opening the file again gives a handle on the region that is there;
* `Request.serve`, `Request.serveAll`: requests to a bare region, which is handed on from one to the next;
* `Host.askAll_inMemory`: a store in memory is such a region;
* `FileEvent`, `Sharing`, `Sharing.run`: handles that come and go, and what is asked through them;
* `Sharing.Kept`: what is true of a file and its handles at any time;
* `OneStore`, `file_is_one_store`: the answers.
-/

namespace ProcProfile

/-! ### Opening a file again -/

/-- The capacities that a region in a file can have. -/
structure Fileable (capacity unitCapacity : UInt64) : Prop where
  chunks : capacity ≠ 0
  units : unitCapacity ≠ 0
  /-- The header has half a word for the number of unit slots. -/
  units_lt : unitCapacity.toNat < 2 ^ 32
  /-- There are files that are long enough. -/
  new : Host.newInFile capacity unitCapacity = .ok (.create capacity unitCapacity)

theorem Fileable.exists_length {capacity unitCapacity : UInt64} (h : Fileable capacity unitCapacity) :
    ∃ length, regionLength capacity unitCapacity = .ok length := by
  obtain ⟨length, hlength, -⟩ := bind_eq_ok_iff.1 h.new
  exact ⟨length, Stop.ofFault_eq_ok_iff.1 hlength⟩

theorem Header.Tells.of_nextOwner {h h' : Header} {capacity unitCapacity : UInt64}
    (ht : h'.Tells capacity unitCapacity) {owner : UInt32} (hheader : h = { h' with nextOwner := owner }) :
    h.Tells capacity unitCapacity := by
  obtain ⟨_, used, unitsUsed, hh'⟩ := ht
  exact ⟨owner, used, unitsUsed, by rw [hheader, hh']⟩

theorem Header.Tells.of_frame {r q : Region} {capacity unitCapacity : UInt64}
    (ht : r.header.Tells capacity unitCapacity) (hframe : Region.Frame r q) : q.header.Tells capacity unitCapacity := by
  obtain ⟨owner, _, _, hr⟩ := ht
  obtain ⟨used, unitsUsed, hq⟩ := hframe.header
  exact ⟨owner, used, unitsUsed, by rw [hq, hr]⟩

namespace Host

variable {h : Host} {path : String} {file : FileId} {q : TokenPlace} {live : List (UInt32 × FileId)} {r : Region}
  {capacity unitCapacity : UInt64}

theorem layout_of_serves (hd : h.disk.Serves path q file live (.ofCapacities capacity unitCapacity) r)
    (hr : r.header.Tells capacity unitCapacity) (hc : Fileable capacity unitCapacity) :
    Layout.ofFile path (h.disk.read file) = .ok (.ofCapacities capacity unitCapacity) := by
  obtain ⟨length, hlength⟩ := hc.exists_length
  obtain ⟨owner, hheader⟩ := hd.stores.alike.header
  rw [hd.stores.isImage.header_mapped] at hheader
  exact Layout.ofFile_eq_ok hd.stores.isImage.size_eq (hr.of_nextOwner hheader) hc.chunks hc.units hc.units_lt hlength
    path

/-- Attaching to a region file gives a handle on the whole of it. -/
theorem attach_eq (hd : h.disk.Serves path q file live (.ofCapacities capacity unitCapacity) r)
    (hr : r.header.Tells capacity unitCapacity) (hc : Fileable capacity unitCapacity) :
    h.attach path = h.attachFile path file (.ofCapacities capacity unitCapacity) := by
  unfold attach
  rw [hd.leads.openFile]
  dsimp only
  rw [layout_of_serves hd hr hc]

/-- Whoever opens a region file gets the size that it has, whatever size is wanted. -/
theorem openShared_eq (hd : h.disk.Serves path q file live (.ofCapacities capacity unitCapacity) r)
    (hr : r.header.Tells capacity unitCapacity) (hc : Fileable capacity unitCapacity) {wanted unitsWanted : UInt64}
    (hwanted : wanted ≠ 0) (hunitsWanted : unitsWanted ≠ 0) :
    h.openShared path wanted unitsWanted = h.attachFile path file (.ofCapacities capacity unitCapacity) := by
  have hsize : (h.disk.read file).size ≠ 0 := by
    rw [hd.stores.isImage.size_eq]
    simp only [Layout.length, Layout.unitOffset, headerSize]
    omega
  unfold openShared
  rw [if_neg (by simp [hwanted, hunitsWanted]), hd.leads.openOrCreate]
  dsimp only
  rw [if_neg hsize, layout_of_serves hd hr hc]

end Host

/-! ### A store in memory -/

namespace Request

/-- The answer to a request to a region that nobody else uses, and the region afterwards. -/
def serve (r : Region) : Request → Region × Except Fault Answer
  | .info => (r, .ok (.info (r.info false)))
  | .operation op =>
    match op.run .local r with
    | .error f => (r, .error f)
    | .ok access => (access.region, .ok access.answer)

/-- The answers to requests one after another, each to the region that the one before it left. -/
def serveAll (r : Region) : List Request → Region × List (Except Fault Answer)
  | [] => (r, [])
  | request :: requests =>
    ((serveAll (request.serve r).1 requests).1, (request.serve r).2 :: (serveAll (request.serve r).1 requests).2)

theorem serve_of_ok {r : Region} {op : Operation} {access : Access Answer} (hrun : op.run .local r = .ok access) :
    (operation op).serve r = (access.region, .ok access.answer) := by
  rw [serve, hrun]

theorem serve_of_error {r : Region} {op : Operation} {f : Fault} (hrun : op.run .local r = .error f) :
    (operation op).serve r = (r, .error f) := by
  rw [serve, hrun]

theorem serveAll_append (r : Region) (before after : List Request) :
    serveAll r (before ++ after) =
      ((serveAll (serveAll r before).1 after).1, (serveAll r before).2 ++ (serveAll (serveAll r before).1 after).2) := by
  induction before generalizing r with
  | nil => rfl
  | cons request before ih =>
    rw [List.cons_append, serveAll, serveAll, ih]
    rfl

end Request

/-- A host with one region, in memory. -/
def Host.inMemory (r : Region) : Host := ⟨Disk.empty, #[r]⟩

/-- A store in memory passes requests on to its region. -/
theorem Host.ask_inMemory (r : Region) (request : Request) :
    (Host.inMemory r).ask (.memory 0) request = (Host.inMemory (request.serve r).1, (request.serve r).2) := by
  cases request with
  | info => rfl
  | operation op =>
    have hregion : (Host.inMemory r).region (.memory 0) = r := rfl
    unfold Host.ask Host.perform
    dsimp only
    rw [hregion]
    cases hrun : op.run .local r with
    | error f => rw [Request.serve_of_error hrun]
    | ok access =>
      rw [Request.serve_of_ok hrun]
      rfl

theorem Host.askAll_inMemory (r : Region) (requests : List Request) :
    (Host.inMemory r).askAll (.memory 0) requests =
      (Host.inMemory (Request.serveAll r requests).1, (Request.serveAll r requests).2) := by
  induction requests generalizing r with
  | nil => rfl
  | cons request requests ih =>
    rw [Host.askAll, Host.ask_inMemory]
    dsimp only
    rw [ih]
    rfl

/-- A new store in memory. -/
theorem Host.openMemory_empty {capacity unitCapacity : UInt64} {h : Host} {store : Store}
    (hopen : Host.empty.openMemory capacity unitCapacity = (h, .ok store)) :
    h = .inMemory (.create capacity unitCapacity) ∧ store = .memory 0 := by
  unfold openMemory at hopen
  split_ifs at hopen
  · cases hopen
  · cases hnew : newInMemory capacity unitCapacity with
    | error e =>
      rw [hnew] at hopen
      cases hopen
    | ok region =>
      rw [hnew] at hopen
      cases hopen
      obtain ⟨length, -, hnew⟩ := bind_eq_ok_iff.1 hnew
      split_ifs at hnew
      cases hnew
      exact ⟨rfl, rfl⟩

/-! ### Handles that come and go -/

/-- What happens to a region file. -/
inductive FileEvent where
  /-- The file is opened, or made, with wishes for its size. -/
  | openFile (capacity unitCapacity : UInt64)
  /-- The file is opened if it is there. -/
  | attach
  /-- A handle is closed; handles are numbered from the newest one on. -/
  | close (handle : Nat)
  /-- Something is asked through a handle. -/
  | ask (handle : Nat) (request : Request)
  /-- Nothing is kept of the file but its bytes. -/
  | flush

/-- A host and the handles that are open on a region file. -/
structure Sharing where
  host : Host
  handles : List Store

namespace Sharing

/-- One handle more, if there was an answer. -/
def join (s : Sharing) (out : Host × Except (Stop StoreError) Store) : Sharing :=
  match out.2 with
  | .ok store => ⟨out.1, store :: s.handles⟩
  | .error _ => ⟨out.1, s.handles⟩

/-- One event, and the answer to what was asked. -/
def step (path : String) (s : Sharing) : FileEvent → Sharing × Option (Request × Except Fault Answer)
  | .openFile capacity unitCapacity => (s.join (s.host.openShared path capacity unitCapacity), none)
  | .attach => (s.join (s.host.attach path), none)
  | .close handle =>
    match s.handles[handle]? with
    | none => (s, none)
    | some store => (⟨s.host.release store, s.handles.filter (· != store)⟩, none)
  | .ask handle request =>
    match s.handles[handle]? with
    | none => (s, none)
    | some store =>
      (⟨(s.host.ask store request).1, s.handles⟩, some (request, (s.host.ask store request).2))
  | .flush =>
    match s.host.disk.openFile path with
    | .error _ => (s, none)
    | .ok file => (⟨{ s.host with disk := s.host.disk.modify file Contents.flushed }, s.handles⟩, none)

/-- Events one after another, and all that was asked, with the answers. -/
def run (path : String) : List FileEvent → Sharing → Sharing × List (Request × Except Fault Answer)
  | [], s => (s, [])
  | event :: events, s =>
    ((run path events (s.step path event).1).1,
      (s.step path event).2.toList ++ (run path events (s.step path event).1).2)

end Sharing

/-- An answer as a store in memory gives it: it is not shared. -/
def Answer.asLocal : Answer → Answer
  | .info i => .info { i with shared := false }
  | answer => answer

/-- A region `r` gives these answers as well, and `r'` is left. -/
def Answered (r : Region) (log : List (Request × Except Fault Answer)) (r' : Region) : Prop :=
  Request.serveAll r (log.map Prod.fst) = (r', log.map fun entry => Answer.asLocal <$> entry.2)

theorem Answered.append {r r' r'' : Region} {log log' : List (Request × Except Fault Answer)} (h : Answered r log r')
    (h' : Answered r' log' r'') : Answered r (log ++ log') r'' := by
  unfold Answered at *
  rw [List.map_append, Request.serveAll_append, h, h', List.map_append]

/-- Only records that have an image are folded. -/
def Operation.Fits : Operation → Prop
  | .fold _ records => ∀ x ∈ records, x.Fits
  | _ => True

def Request.Fits : Request → Prop
  | .info => True
  | .operation op => op.Fits

def FileEvent.Fits : FileEvent → Prop
  | .ask _ request => request.Fits
  | _ => True

/-- No operation tells whether the store is shared. -/
theorem Operation.asLocal_answer {op : Operation} {o : Owner} {r : Region} {access : Access Answer}
    (hrun : op.run o r = .ok access) : access.answer.asLocal = access.answer := by
  cases op with
  | insertChunk | dump | resetStats =>
    cases hrun
    rfl
  | _ =>
    obtain ⟨_, -, rfl⟩ := map_eq_ok_iff.1 hrun
    rfl

theorem Operation.Fits.keeps {op : Operation} (h : op.Fits) : op.Keeps FitsPage := by
  cases op with
  | fold id records => exact foldKeeps_fitsPage h
  | _ => trivial

namespace Sharing

variable {s : Sharing} {path : String} {q : TokenPlace} {file : FileId} {capacity unitCapacity : UInt64}
  {live : List (UInt32 × FileId)} {r : Region}

/-- The handle of an owner. -/
def handleOn (path : String) (file : FileId) (l : Layout) (a : UInt32 × FileId) : Store :=
  .file ⟨file, path, l, a.1, a.2⟩

/-- What is true of a region file and its handles at any time: nothing in it can be told apart from a region `r`, in
which no lock is taken either, and the handles are those of the owners alive. -/
structure Kept (s : Sharing) (path : String) (q : TokenPlace) (file : FileId) (capacity unitCapacity : UInt64)
    (live : List (UInt32 × FileId)) (r : Region) : Prop where
  serves : s.host.disk.Serves path q file live (.ofCapacities capacity unitCapacity) r
  handles : s.handles = live.map (handleOn path file (.ofCapacities capacity unitCapacity))
  tells : r.header.Tells capacity unitCapacity
  free : ∀ place, r.word place = 0

/-- One more handle, or none. -/
theorem Kept.attachFile (h : s.Kept path q file capacity unitCapacity live r) :
    ∃ live', (s.join (s.host.attachFile path file (.ofCapacities capacity unitCapacity))).Kept path q file capacity
      unitCapacity live' r := by
  rcases Host.attachFile_serves h.serves with ⟨disk, owner, token, hrun, hd⟩ | ⟨disk, e, hrun, hd⟩
  · rw [hrun]
    refine ⟨(owner, token) :: live, hd, ?_, h.tells, h.free⟩
    show _ :: s.handles = _
    rw [h.handles]
    rfl
  · rw [hrun]
    exact ⟨live, hd, h.handles, h.tells, h.free⟩

theorem Kept.close (h : s.Kept path q file capacity unitCapacity live r) {a : UInt32 × FileId} (ha : a ∈ live) :
    (Sharing.mk (s.host.release (handleOn path file (.ofCapacities capacity unitCapacity) a))
      (s.handles.filter (· != handleOn path file (.ofCapacities capacity unitCapacity) a))).Kept path q file capacity
        unitCapacity (Disk.others live a.1) r where
  serves := h.serves.releaseToken ha
  handles := by
    rw [h.handles, List.filter_map]
    refine congrArg (List.map _) (List.filter_congr fun b hb => ?_)
    -- owners alive are told apart by their ids
    have hsame : handleOn path file (.ofCapacities capacity unitCapacity) b =
        handleOn path file (.ofCapacities capacity unitCapacity) a ↔ b.1 = a.1 := by
      constructor
      · intro hba
        unfold handleOn at hba
        rw [Store.file.injEq, Attachment.mk.injEq] at hba
        exact hba.2.2.2.1
      · intro hba
        rw [List.inj_on_of_nodup_map h.serves.attached.distinct hb ha hba]
    rw [Function.comp_apply, Bool.eq_iff_iff, bne_iff_ne, bne_iff_ne]
    exact not_iff_not.2 hsame
  tells := h.tells
  free := h.free

/-- What is asked through a handle is answered as by the region. -/
theorem Kept.ask (h : s.Kept path q file capacity unitCapacity live r) {request : Request} (hfits : request.Fits)
    (att : Attachment) (hfile : att.file = file) (hlayout : att.layout = .ofCapacities capacity unitCapacity) :
    ∃ r', (Sharing.mk (s.host.ask (.file att) request).1 s.handles).Kept path q file capacity unitCapacity live r' ∧
      request.serve r = (r', Answer.asLocal <$> (s.host.ask (.file att) request).2) := by
  subst hfile
  have hstores := h.serves.stores
  rw [← hlayout] at hstores
  have hmaps : s.host.Maps att := ⟨h.serves.lt_size, hstores.isImage⟩
  have halike : (s.host.region (.file att)).Matches r := hstores.alike
  cases request with
  | info =>
    refine ⟨r, h, ?_⟩
    show (_, Except.ok (Answer.info (r.info false))) =
      (_, Except.ok (Answer.asLocal (.info (s.host.info (.file att)))))
    rw [hmaps.info_eq, halike.info_eq]
    rfl
  | operation op =>
    have htakeable : (s.host.region (.file att)).Takeable (s.host.ownerOf att) :=
      Region.takeable_iff.2 fun place => (hstores.free place).symm ▸ Owner.canTake_zero _
    have htakeable' : r.Takeable .local := Region.takeable_iff.2 fun place => (h.free place).symm ▸ Owner.canTake_zero _
    have hlockstep := op.alike halike htakeable htakeable'
    generalize hx : op.run (s.host.ownerOf att) (s.host.region (.file att)) = x at hlockstep
    generalize hy : op.run .local r = y at hlockstep
    cases hlockstep with
    | error hf =>
      refine ⟨r, ?_, ?_⟩
      · rw [Host.ask, Host.perform_of_error hx]
        exact h
      · rw [Request.serve_of_error hy, Host.ask, Host.perform_of_error hx]
        rfl
    | @ok access access' hsame =>
      have hleft := hstores.operate (Operation.Fits.keeps hfits) hx hsame.region
      have hserves : (s.host.written att access.region access.retired).disk.Serves path q att.file live
          (.ofCapacities capacity unitCapacity) access'.region := by
        rw [Operation.retired_eq_nil hstores.free hx]
        exact h.serves.modify (f := fun c => c.writeMapped access.region) (hlayout ▸ hleft)
      have hframe := Operation.frame hy
      refine ⟨access'.region, ?_, ?_⟩
      · rw [Host.ask, Host.perform_of_ok hx]
        exact ⟨hserves, h.handles, h.tells.of_frame hframe, hframe.free h.free⟩
      · rw [Request.serve_of_ok hy, Host.ask, Host.perform_of_ok hx, ← hsame.answer]
        show _ = (_, Except.ok access.answer.asLocal)
        rw [Operation.asLocal_answer hx]

/-- What one event does. -/
theorem Kept.step (h : s.Kept path q file capacity unitCapacity live r) (hc : Fileable capacity unitCapacity)
    {event : FileEvent} (hfits : event.Fits) :
    ∃ live' r', (s.step path event).1.Kept path q file capacity unitCapacity live' r' ∧
      Answered r (s.step path event).2.toList r' := by
  cases event with
  | openFile wanted unitsWanted =>
    by_cases hzero : wanted = 0 ∨ unitsWanted = 0
    · have hnone : s.host.openShared path wanted unitsWanted = (s.host, .error (.error .regionTooSmall)) := if_pos hzero
      rw [Sharing.step, hnone]
      exact ⟨live, r, h, rfl⟩
    · rw [not_or] at hzero
      obtain ⟨live', h'⟩ := h.attachFile
      rw [Sharing.step, Host.openShared_eq h.serves h.tells hc hzero.1 hzero.2]
      exact ⟨live', r, h', rfl⟩
  | attach =>
    obtain ⟨live', h'⟩ := h.attachFile
    rw [Sharing.step, Host.attach_eq h.serves h.tells hc]
    exact ⟨live', r, h', rfl⟩
  | close handle =>
    rw [Sharing.step, h.handles, List.getElem?_map]
    cases ha : live[handle]? with
    | none => exact ⟨live, r, h, rfl⟩
    | some a =>
      have hclosed := h.close (List.mem_of_getElem? ha)
      rw [h.handles] at hclosed
      exact ⟨_, r, hclosed, rfl⟩
  | ask handle request =>
    rw [Sharing.step, h.handles, List.getElem?_map]
    cases ha : live[handle]? with
    | none => exact ⟨live, r, h, rfl⟩
    | some a =>
      obtain ⟨r', h', hanswer⟩ :=
        h.ask hfits ⟨file, path, .ofCapacities capacity unitCapacity, a.1, a.2⟩ rfl rfl
      rw [h.handles] at h'
      refine ⟨live, r', h', ?_⟩
      show ((request.serve r).1, [(request.serve r).2]) = _
      rw [hanswer]
      rfl
  | flush =>
    rw [Sharing.step, h.serves.leads.openFile]
    exact ⟨live, r, ⟨h.serves.modify h.serves.stores.flushed, h.handles, h.tells, h.free⟩, rfl⟩

/-- What any events do. -/
theorem Kept.run (h : s.Kept path q file capacity unitCapacity live r) (hc : Fileable capacity unitCapacity)
    {events : List FileEvent} (hfits : ∀ event ∈ events, event.Fits) :
    ∃ live' r', (Sharing.run path events s).1.Kept path q file capacity unitCapacity live' r' ∧
      Answered r (Sharing.run path events s).2 r' := by
  induction events generalizing s live r with
  | nil => exact ⟨live, r, h, rfl⟩
  | cons event events ih =>
    obtain ⟨live₁, r₁, h₁, hanswer₁⟩ := h.step hc (hfits event List.mem_cons_self)
    obtain ⟨live₂, r₂, h₂, hanswer₂⟩ := ih h₁ fun e he => hfits e (List.mem_cons_of_mem _ he)
    exact ⟨live₂, r₂, h₂, hanswer₁.append hanswer₂⟩

end Sharing

/-- A region file behaved as one store in memory with these capacities: `out` are its handles after some events, and
what was asked, with the answers. -/
structure OneStore (path : String) (capacity unitCapacity : UInt64)
    (out : Sharing × List (Request × Except Fault Answer)) : Prop where
  /-- Whatever was asked, through whichever handle, was answered as by one new region … -/
  answers : (Request.serveAll (.create capacity unitCapacity) (out.2.map Prod.fst)).2 =
    out.2.map fun entry => Answer.asLocal <$> entry.2
  /-- … and as by a new store in memory, if memory has room for it. -/
  memory : ∀ h store, Host.empty.openMemory capacity unitCapacity = (h, .ok store) →
    (h.askAll store (out.2.map Prod.fst)).2 = out.2.map fun entry => Answer.asLocal <$> entry.2
  /-- The file can be opened whatever size is wanted, and attached to, as long as owner ids are left. -/
  opens : ∀ wanted unitsWanted, wanted ≠ 0 → unitsWanted ≠ 0 → out.1.handles.length < 2 ^ 32 - 2 →
    ∃ h store, out.1.host.openShared path wanted unitsWanted = (h, .ok store)
  attaches : out.1.handles.length < 2 ^ 32 - 2 → ∃ h store, out.1.host.attach path = (h, .ok store)

/-- A new file becomes a region file with one handle. -/
theorem Host.openShared_new {host : Host} {path : String} {capacity unitCapacity : UInt64} {d : Disk} {file : FileId}
    (hc : Fileable capacity unitCapacity) (hopen : host.disk.openOrCreate path = .ok (d, file))
    (hfile : file < d.contents.size) (hempty : (d.read file).size = 0) (hready : d.TokensReady path) :
    ∃ h store q live, host.openShared path capacity unitCapacity = (h, .ok store) ∧
      (Sharing.mk h [store]).Kept path q file capacity unitCapacity live (.create capacity unitCapacity) := by
  obtain ⟨q, hattached⟩ := hready.attached
  obtain ⟨disk, owner, token, hattach, hserves⟩ := Host.attachFile_eq_ok
    (h := { host with disk := d.write file (.ofRegion (.create capacity unitCapacity)) })
    (Disk.serves_create hopen hfile hattached) (by decide)
  refine ⟨{ host with disk := disk }, _, q, [(owner, token)], ?_, hserves, rfl, ⟨_, _, _, rfl⟩,
    Region.word_create capacity unitCapacity⟩
  unfold openShared
  rw [if_neg (by simp [hc.chunks, hc.units]), hopen]
  dsimp only
  rw [if_pos hempty, hc.new]
  exact hattach

/-- A region file that is made with some capacities behaves as one store in memory with these capacities, whoever
opens and closes it and whatever is asked. -/
theorem file_is_one_store {host : Host} {path : String} {capacity unitCapacity : UInt64} {d : Disk} {file : FileId}
    (hc : Fileable capacity unitCapacity) (hopen : host.disk.openOrCreate path = .ok (d, file))
    (hfile : file < d.contents.size) (hempty : (d.read file).size = 0) (hready : d.TokensReady path)
    {events : List FileEvent} (hfits : ∀ event ∈ events, event.Fits) :
    ∃ h store, host.openShared path capacity unitCapacity = (h, .ok store) ∧
      OneStore path capacity unitCapacity (Sharing.run path events ⟨h, [store]⟩) := by
  obtain ⟨h, store, q, live, hnew, hkept⟩ := Host.openShared_new hc hopen hfile hempty hready
  obtain ⟨live', r, hkept', hanswered⟩ := hkept.run hc hfits
  have hlength := congrArg List.length hkept'.handles
  rw [List.length_map] at hlength
  refine ⟨h, store, hnew, congrArg Prod.snd hanswered, ?_, ?_, ?_⟩
  · intro h store hopen
    obtain ⟨rfl, rfl⟩ := Host.openMemory_empty hopen
    rw [Host.askAll_inMemory]
    exact congrArg Prod.snd hanswered
  · intro wanted unitsWanted hwanted hunitsWanted hfew
    obtain ⟨disk, owner, token, hattach, -⟩ := Host.attachFile_eq_ok hkept'.serves (hlength ▸ hfew)
    rw [Host.openShared_eq hkept'.serves hkept'.tells hc hwanted hunitsWanted]
    exact ⟨_, _, hattach⟩
  · intro hfew
    obtain ⟨disk, owner, token, hattach, -⟩ := Host.attachFile_eq_ok hkept'.serves (hlength ▸ hfew)
    rw [Host.attach_eq hkept'.serves hkept'.tells hc]
    exact ⟨_, _, hattach⟩

/-- Two handles on a file, of which the second one was opened with other wishes.  Both are closed while the file is
kept as its bytes, and a third one finds what they left. -/
def visits : List FileEvent :=
  [.ask 0 (.operation (.fold ⟨1, 1, 0, 0⟩ [.ofLine 0, .ofLine 3])), .openFile 7 9,
    .ask 0 (.operation (.recordCall ⟨1, 1⟩ 10 false)), .ask 1 .info, .flush, .close 1, .close 0, .attach,
    .ask 0 (.operation (.readRecords ⟨1, 1, 0, 0⟩)), .ask 0 (.operation .summaries)]

/-- A disk with an empty file. -/
def emptyFile : Disk := ⟨[(["region"], .file 0)], #[.empty], []⟩

theorem file_is_one_store_visits :
    Fileable 2 1 ∧ Host.empty.disk.openOrCreate "region" = .ok (emptyFile, 0) ∧ emptyFile.TokensReady "region" ∧
      (∀ event ∈ visits, event.Fits) ∧ ∃ h store, Host.empty.openShared "region" 2 1 = (h, .ok store) ∧
        OneStore "region" 2 1 (Sharing.run "region" visits ⟨h, [store]⟩) := by
  have hc : Fileable 2 1 := ⟨by decide, by decide, by decide, rfl⟩
  have hopen : Host.empty.disk.openOrCreate "region" = .ok (emptyFile, 0) := rfl
  have htarget : emptyFile.target "region" = .ok ⟨[], "region", false⟩ := rfl
  have hready : emptyFile.TokensReady "region" :=
    Disk.tokensReady_of_files htarget rfl (by decide) (by decide) (by decide) (by decide) rfl
  have hfits : ∀ event ∈ visits, event.Fits := by
    simp only [visits, List.forall_mem_cons]
    refine ⟨?_, trivial, trivial, trivial, trivial, trivial, trivial, trivial, trivial, trivial, nofun⟩
    intro x hx
    simp only [List.mem_cons, List.not_mem_nil, or_false] at hx
    rcases hx with rfl | rfl
    · exact Record.fits_ofLine 0
    · exact Record.fits_ofLine 3
  exact ⟨hc, hopen, hready, hfits, file_is_one_store hc hopen (by decide) rfl hready hfits⟩

end ProcProfile
