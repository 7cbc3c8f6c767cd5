import Mathlib.Tactic
import ProcProfile.Proofs.Host
import ProcProfile.Proofs.Region.Operations

/-!
# Requests through a handle

A handle on a region in a file answers requests one after another.  As long as the file holds a region of the
handle's layout, an operation through the handle is that operation on the region, and what it leaves behind is
the region in the file afterwards.

* `Request`, `Host.ask`, `Host.askAll`: requests to a store;
* `Host.Maps`: a handle on a file that holds a region of its layout;
* `Host.written`, `Host.perform_of_ok`, `Host.Maps.written`, `Host.Maps.region_written`: what an operation through a
  handle does.
-/

namespace ProcProfile

/-- A request to a store. -/
inductive Request where
  | info
  | operation (op : Operation)

namespace Disk

theorem contents_removeTokens (d : Disk) (region : String) (owners : List UInt32) :
    (d.removeTokens region owners).contents = d.contents := by
  unfold removeTokens
  induction owners generalizing d with
  | nil => rfl
  | cons owner owners ih => rw [List.foldl_cons, ih, contents_unlink]

theorem read_removeTokens (d : Disk) (region : String) (owners : List UInt32) (file : FileId) :
    (d.removeTokens region owners).read file = d.read file := by
  unfold read
  rw [contents_removeTokens]

end Disk

namespace Host

variable {h : Host} {a b : Attachment} {r : Region}

/-- The answer to a request, and the host afterwards. -/
def ask (h : Host) (s : Store) : Request → Host × Except Fault Answer
  | .info => (h, .ok (.info (h.info s)))
  | .operation op => h.perform s op.run

/-- The answers to requests one after another, and the host afterwards. -/
def askAll (h : Host) (s : Store) : List Request → Host × List (Except Fault Answer)
  | [] => (h, [])
  | request :: requests =>
    let answer := h.ask s request
    let rest := answer.1.askAll s requests
    (rest.1, answer.2 :: rest.2)

/-- A handle on a file that holds a region of the handle's layout. -/
structure Maps (h : Host) (a : Attachment) : Prop where
  lt_size : a.file < h.disk.contents.size
  isImage : (h.disk.read a.file).IsImage a.layout

theorem layout_region (h : Host) (a : Attachment) : (h.region (.file a)).layout = a.layout :=
  Contents.layout_mapped _ _

/-- What is told about a file is told by the region in it. -/
theorem Maps.info_eq (hm : h.Maps a) : h.info (.file a) = (h.region (.file a)).info true := by
  unfold info Region.info
  rw [layout_region]
  unfold region
  dsimp only
  rw [hm.isImage.header_mapped]

/-- A host after an operation through a handle left a region behind, and found some owners dead. -/
def written (h : Host) (a : Attachment) (r : Region) (retired : List UInt32) : Host :=
  { h with disk := (h.disk.modify a.file fun c => c.writeMapped r).removeTokens a.path retired }

theorem perform_of_ok {α : Type} {op : Owner → Region → Except Fault (Access α)} {access : Access α}
    (hrun : op (h.ownerOf a) (h.region (.file a)) = .ok access) :
    h.perform (.file a) op = (h.written a access.region access.retired, .ok access.answer) := by
  unfold perform
  dsimp only
  rw [hrun]
  rfl

theorem perform_of_error {α : Type} {op : Owner → Region → Except Fault (Access α)} {f : Fault}
    (hrun : op (h.ownerOf a) (h.region (.file a)) = .error f) : h.perform (.file a) op = (h, .error f) := by
  unfold perform
  dsimp only
  rw [hrun]

theorem Maps.read_written (hm : h.Maps a) (r : Region) (retired : List UInt32) :
    (h.written a r retired).disk.read a.file = (h.disk.read a.file).writeMapped r := by
  unfold Host.written
  dsimp only
  rw [Disk.read_removeTokens, Disk.read_modify hm.lt_size]

theorem Maps.written (hm : h.Maps a) (hr : r.layout = a.layout) (retired : List UInt32) :
    (h.written a r retired).Maps a where
  lt_size := by
    unfold Host.written
    dsimp only
    rw [Disk.contents_removeTokens]
    exact hm.lt_size.trans_eq (Array.size_setIfInBounds ..).symm
  isImage := by
    rw [hm.read_written]
    exact hm.isImage.writeMapped hr

theorem Maps.region_written (hm : h.Maps a) (hr : r.layout = a.layout) (retired : List UInt32) :
    (h.written a r retired).region (.file a) = r := by
  unfold region
  dsimp only
  rw [hm.read_written, Contents.mapped_writeMapped hm.isImage.extent_le hr]

end Host

end ProcProfile
