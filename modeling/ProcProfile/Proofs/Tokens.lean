import Mathlib.Tactic
import ProcProfile.Proofs.Disk
import ProcProfile.Proofs.Host
import ProcProfile.Proofs.Region.Image

/-!
# Owner ids

Whoever opens a region in a file takes the next owner id whose token nobody has locked.  Ids count up and start
again after the last; an owner that crashes leaves its token behind, unlocked, and whoever asks for that owner then
removes it.  At every moment the ids of the owners alive are distinct, and a token is locked exactly if its owner is
alive.

* `Disk.TokensReady`: a disk on which tokens can be made;
* `Disk.Attached`: the tokens on a disk while some owners are alive;
* `Disk.Attached.of_acquire`, `Disk.Attached.close`, `Disk.Attached.crash`, `Disk.Attached.removeToken`: what keeps
  it;
* `Disk.Attached.exists_acquire`: an id is found while one is free;
* `Attaches.run`, `Attaches.Exact`, `owner_ids_exact`: after any events.
-/

namespace ProcProfile

namespace Disk

variable {d d' : Disk} {region : String} {q : TokenPlace} {live : List (UInt32 × FileId)} {file : FileId}
  {owner : UInt32} {token : FileId}

/-- A disk on which the tokens of a region can be made and nobody holds one yet.  Tokens that were left behind may
be there; no two of them are one file. -/
structure TokensReady (d : Disk) (region : String) : Prop where
  opens : ∀ owner, ∃ out, d.openOrCreate (tokenPath region owner) = .ok out
  unlocked : ∀ owner id, d.openFile (tokenPath region owner) = .ok id → d.isLocked id = false
  apart : ∀ a b id, d.openFile (tokenPath region a) = .ok id → d.openFile (tokenPath region b) = .ok id → a = b
  token_lt : ∀ owner id, d.openFile (tokenPath region owner) = .ok id → id < d.contents.size
  locked_lt : ∀ id, d.isLocked id = true → id < d.contents.size

/-- The tokens of a region while the owners `live` are alive, each with its token.  A token is locked exactly if its
owner is one of them. -/
structure Attached (d : Disk) (region : String) (q : TokenPlace) (live : List (UInt32 × FileId)) : Prop where
  place : d.TokensAt region q
  distinct : (live.map Prod.fst).Nodup
  above : ∀ a ∈ live, localOwner < a.1
  token : ∀ a ∈ live, d.token? q a.1 = some a.2
  locked : ∀ a ∈ live, a.2 ∈ d.locked
  owned : ∀ owner id, d.token? q owner = some id → id ∈ d.locked → (owner, id) ∈ live
  apart : ∀ a b id, d.token? q a = some id → d.token? q b = some id → a = b
  token_lt : ∀ owner id, d.token? q owner = some id → id < d.contents.size
  locked_lt : ∀ id ∈ d.locked, id < d.contents.size

theorem TokensAt.openFile_iff (h : d.TokensAt region q) {id : FileId} :
    d.openFile (tokenPath region owner) = .ok id ↔ d.token? q owner = some id := by
  unfold openFile
  cases hid : d.token? q owner with
  | none =>
    rw [h.resolve_of_none hid]
    exact ⟨nofun, nofun⟩
  | some other =>
    rw [h.resolve_of_some hid]
    show Except.ok other = _ ↔ _
    rw [Except.ok.injEq, Option.some.injEq]

theorem TokensReady.attached (h : d.TokensReady region) : ∃ q, d.Attached region q [] := by
  obtain ⟨q, hq⟩ := exists_tokensAt h.opens
  refine ⟨q, hq, List.nodup_nil, nofun, nofun, nofun, fun owner id hid hlocked => ?_, fun a b id ha hb => ?_,
    fun owner id hid => ?_, fun id hid => ?_⟩
  · have hunlocked := h.unlocked owner id (hq.openFile_iff.2 hid)
    rw [isLocked, List.contains_iff_mem.2 hlocked] at hunlocked
    cases hunlocked
  · exact h.apart a b id (hq.openFile_iff.2 ha) (hq.openFile_iff.2 hb)
  · exact h.token_lt owner id (hq.openFile_iff.2 hid)
  · exact h.locked_lt id (List.contains_iff_mem.2 hid)

/-- Tokens can be made beside a file on a disk without directories, links and locks, if there is room for their
names. -/
theorem tokensReady_of_files {t : Target} (ht : d.target region = .ok t) (hflag : t.isDirectory = false)
    (hpath : region.utf8ByteSize + 17 ≤ maxPathBytes) (hpart : t.part.utf8ByteSize + 17 ≤ maxNameBytes)
    (hfiles : ∀ e ∈ d.entries, ∃ id < d.contents.size, e.2 = .file id)
    (hlinks : ∀ e ∈ d.entries, ∀ e' ∈ d.entries, e.2 = e'.2 → e.1 = e'.1) (hlocked : d.locked = []) :
    d.TokensReady region := by
  have hentry : ∀ owner node, d.lookup ((TokenPlace.mk t.dir t.part).names owner) = some node →
      ((TokenPlace.mk t.dir t.part).names owner, node) ∈ d.entries := by
    intro owner node hnode
    unfold lookup at hnode
    rw [TokenPlace.isTop_names, if_neg Bool.false_ne_true] at hnode
    obtain ⟨before, after, hentries, -⟩ := List.lookup_eq_some_iff.1 hnode
    rw [hentries]
    exact List.mem_append_right _ List.mem_cons_self
  have hplace : d.TokensAt region ⟨t.dir, t.part⟩ :=
    tokensAt_of_target ht hflag hpath hpart fun owner hdir => by
      obtain ⟨id, -, hid⟩ := hfiles _ (hentry owner _ hdir)
      cases hid
  have htoken : ∀ owner id, d.openFile (tokenPath region owner) = .ok id →
      ((TokenPlace.mk t.dir t.part).names owner, .file id) ∈ d.entries := fun owner id hid =>
    hentry owner _ (token?_eq_some_iff.1 (hplace.openFile_iff.1 hid))
  refine ⟨fun owner => ?_, fun owner id _ => ?_, fun a b id ha hb => ?_, fun owner id hid => ?_, fun id hid => ?_⟩
  · cases hid : d.token? ⟨t.dir, t.part⟩ owner with
    | none => exact ⟨_, hplace.openOrCreate_of_none hid⟩
    | some id => exact ⟨_, hplace.openOrCreate_of_some hid⟩
  · rw [isLocked, hlocked]
    rfl
  · exact TokenPlace.names_injective (hlinks _ (htoken a id ha) _ (htoken b id hb) rfl)
  · obtain ⟨_, hlt, heq⟩ := hfiles _ (htoken owner id hid)
    cases heq
    exact hlt
  · rw [isLocked, hlocked] at hid
    cases hid

/-! ### Who is alive -/

theorem Attached.ownerAlive_iff (h : d.Attached region q live) :
    d.ownerAlive region owner = true ↔ owner ∈ live.map Prod.fst := by
  rw [h.place.ownerAlive_iff, List.mem_map]
  constructor
  · rintro ⟨id, hid, hlocked⟩
    exact ⟨(owner, id), h.owned owner id hid hlocked, rfl⟩
  · rintro ⟨a, ha, rfl⟩
    exact ⟨a.2, h.token a ha, h.locked a ha⟩

theorem Attached.token_of_mem (h : d.Attached region q live) (hmem : (owner, token) ∈ live) :
    d.token? q owner = some token := by
  have htoken := h.token (owner, token) hmem
  dsimp only at htoken
  exact htoken

/-- No two owners alive share a token. -/
theorem Attached.eq_of_token (h : d.Attached region q live) {a : UInt32 × FileId} (ha : a ∈ live)
    (hmem : (owner, token) ∈ live) (htoken : a.2 = token) : a.1 = owner := by
  have hown : d.token? q a.1 = some token := by rw [h.token a ha, htoken]
  exact h.apart a.1 owner token hown (h.token_of_mem hmem)

/-! ### What changes no token -/

/-- Contents of files may change. -/
theorem Attached.modify (h : d.Attached region q live) (file : FileId) (f : Contents → Contents) :
    (d.modify file f).Attached region q live where
  place := h.place.of_sameDirs fun _ => .rfl
  distinct := h.distinct
  above := h.above
  token := h.token
  locked := h.locked
  owned := h.owned
  apart := h.apart
  token_lt owner id hid := by
    rw [show (d.modify file f).contents.size = d.contents.size from Array.size_setIfInBounds ..]
    exact h.token_lt owner id hid
  locked_lt id hid := by
    rw [show (d.modify file f).contents.size = d.contents.size from Array.size_setIfInBounds ..]
    exact h.locked_lt id hid

/-! ### Attaching -/

/-- One more owner, with a token of its own that nobody had locked. -/
theorem Attached.cons (h : d.Attached region q live) (hplace : d'.TokensAt region q)
    (hlocked : d'.locked = token :: d.locked) (hsize : d.contents.size ≤ d'.contents.size)
    (htokens : ∀ b, d'.token? q b = if b = owner then some token else d.token? q b)
    (hown : ∀ b, b ≠ owner → d.token? q b ≠ some token) (hlt : token < d'.contents.size)
    (habove : localOwner < owner) (hfree : owner ∉ live.map Prod.fst) :
    d'.Attached region q ((owner, token) :: live) := by
  have hothers : ∀ a ∈ live, a.1 ≠ owner := by
    rintro a ha rfl
    exact hfree (List.mem_map.2 ⟨a, ha, rfl⟩)
  refine ⟨hplace, List.nodup_cons.2 ⟨hfree, h.distinct⟩, ?_, ?_, ?_, ?_, ?_, ?_, ?_⟩
  · exact List.forall_mem_cons.2 ⟨habove, h.above⟩
  · refine List.forall_mem_cons.2 ⟨by rw [htokens, if_pos rfl], fun a ha => ?_⟩
    rw [htokens, if_neg (hothers a ha)]
    exact h.token a ha
  · rw [hlocked]
    exact List.forall_mem_cons.2 ⟨List.mem_cons_self, fun a ha => List.mem_cons_of_mem _ (h.locked a ha)⟩
  · intro b id hid hmem
    rw [htokens] at hid
    rw [hlocked] at hmem
    split_ifs at hid with hb
    · cases hid
      rw [hb]
      exact List.mem_cons_self
    · rcases List.mem_cons.1 hmem with rfl | hmem
      · exact absurd hid (hown b hb)
      · exact List.mem_cons_of_mem _ (h.owned b id hid hmem)
  · intro a b id ha hb
    rw [htokens] at ha hb
    split_ifs at ha hb with hao hbo hbo
    · rw [hao, hbo]
    · cases ha
      exact absurd hb (hown b hbo)
    · cases hb
      exact absurd ha (hown a hao)
    · exact h.apart a b id ha hb
  · intro b id hid
    rw [htokens] at hid
    split_ifs at hid
    · cases hid
      exact hlt
    · exact (h.token_lt b id hid).trans_le hsize
  · rw [hlocked]
    exact List.forall_mem_cons.2 ⟨hlt, fun id hid => (h.locked_lt id hid).trans_le hsize⟩

theorem tryLock_of_notMem (h : token ∉ d.locked) : d.tryLock token = some { d with locked := token :: d.locked } := by
  unfold tryLock isLocked
  rw [if_neg fun hmem => h (List.contains_iff_mem.1 hmem)]

/-- A free token, left behind or made anew, is taken. -/
theorem Attached.lock_token (h : d.Attached region q live) (habove : localOwner < owner)
    (hfree : owner ∉ live.map Prod.fst) :
    ∃ d₁ token d₂, d.openOrCreate (tokenPath region owner) = .ok (d₁, token) ∧ d₁.tryLock token = some d₂ ∧
      d₂.Attached region q ((owner, token) :: live) := by
  cases hid : d.token? q owner with
  | some id =>
    have hunlocked : id ∉ d.locked := fun hmem => hfree (List.mem_map.2 ⟨_, h.owned owner id hid hmem, rfl⟩)
    refine ⟨d, id, _, h.place.openOrCreate_of_some hid, tryLock_of_notMem hunlocked, ?_⟩
    refine h.cons (h.place.of_sameDirs fun _ => .rfl) rfl le_rfl (fun b => ?_) (fun b hb hsome => ?_)
      (h.token_lt owner id hid) habove hfree
    · show d.token? q b = _
      split_ifs with hb
      · rw [hb, hid]
      · rfl
    · exact hb (h.apart b owner id hsome hid)
  | none =>
    have hunlocked : d.contents.size ∉ d.locked := fun hmem => absurd (h.locked_lt _ hmem) (Nat.lt_irrefl _)
    refine ⟨_, _, _, h.place.openOrCreate_of_none hid, tryLock_of_notMem hunlocked, ?_⟩
    have hsize : (d.contents.push Contents.empty).size = d.contents.size + 1 := Array.size_push ..
    refine h.cons (h.place.of_sameDirs ?_) rfl ?_
      (fun b => token?_bind { d with contents := d.contents.push .empty } q owner b _) (fun b _ hsome => ?_) ?_
      habove hfree
    · exact sameDirs_bind (d := { d with contents := d.contents.push .empty }) (q.isTop_names owner)
        (h.place.no_dir owner) _
    · show d.contents.size ≤ (d.contents.push Contents.empty).size
      omega
    · exact absurd (h.token_lt b _ hsome) (Nat.lt_irrefl _)
    · show d.contents.size < (d.contents.push Contents.empty).size
      omega

/-- A token that an owner alive has is not taken again. -/
theorem Attached.keep_token (h : d.Attached region q live) {a : UInt32 × FileId} (ha : a ∈ live) :
    d.openOrCreate (tokenPath region a.1) = .ok (d, a.2) ∧ d.tryLock a.2 = none := by
  refine ⟨h.place.openOrCreate_of_some (h.token a ha), ?_⟩
  unfold tryLock isLocked
  rw [if_pos (List.contains_iff_mem.2 (h.locked a ha))]

/-- One id is tried: it is taken, or it cannot be and the next one is tried. -/
theorem Attached.acquire_succ (h : d.Attached region q live) (hfile : file < d.contents.size)
    (howner : owner = (d.read file).header.nextOwner + 1) (fuel : Nat) :
    (∃ d' token, acquireToken region file (fuel + 1) d = (d', .ok (owner, token)) ∧
      d'.Attached region q ((owner, token) :: live)) ∨
    (¬ (localOwner < owner ∧ owner ∉ live.map Prod.fst) ∧
      ∃ d', acquireToken region file (fuel + 1) d = acquireToken region file fuel d' ∧
        d'.Attached region q live ∧ file < d'.contents.size ∧ (d'.read file).header.nextOwner = owner) := by
  rw [acquireToken, ← howner]
  generalize hd : (d.modify file fun c => c.setHeader { (d.read file).header with nextOwner := owner }) = d₁
  have h₁ : d₁.Attached region q live := hd ▸ h.modify file _
  have hfile₁ : file < d₁.contents.size := by
    rw [← hd]
    exact hfile.trans_eq (Array.size_setIfInBounds ..).symm
  have hnext : (d₁.read file).header.nextOwner = owner := by
    rw [← hd, read_modify hfile, Contents.header_setHeader]
  split_ifs with hlocal
  · exact .inr ⟨fun hfree => UInt32.not_lt.2 hlocal hfree.1, d₁, rfl, h₁, hfile₁, hnext⟩
  · by_cases hlive : owner ∈ live.map Prod.fst
    · obtain ⟨a, ha, rfl⟩ := List.mem_map.1 hlive
      obtain ⟨hopen, hlock⟩ := h₁.keep_token ha
      rw [hopen]
      dsimp only
      rw [hlock]
      exact .inr ⟨fun hfree => hfree.2 hlive, d₁, rfl, h₁, hfile₁, hnext⟩
    · obtain ⟨d₂, token, d₃, hopen, hlock, h₃⟩ := h₁.lock_token (UInt32.not_le.1 hlocal) hlive
      rw [hopen]
      dsimp only
      rw [hlock]
      exact .inl ⟨d₃, token, rfl, h₃⟩

/-- An owner id that was handed out is that of one more owner alive. -/
theorem Attached.of_acquire {fuel : Nat} (h : d.Attached region q live) (hfile : file < d.contents.size)
    (hrun : acquireToken region file fuel d = (d', .ok (owner, token))) :
    d'.Attached region q ((owner, token) :: live) := by
  induction fuel generalizing d with
  | zero =>
    rw [acquireToken] at hrun
    cases hrun
  | succ fuel ih =>
    rcases h.acquire_succ hfile rfl fuel with ⟨d₁, taken, htaken, h₁⟩ | ⟨-, d₁, hnext, h₁, hfile₁, -⟩
    · cases htaken.symm.trans hrun
      exact h₁
    · exact ih h₁ hfile₁ (hnext.symm.trans hrun)

/-- The ids after the last one are tried in turn, so a free one is found. -/
theorem Attached.exists_acquire_of_free {fuel k : Nat} (h : d.Attached region q live)
    (hfile : file < d.contents.size) (hk : k < fuel)
    (howner : owner = (d.read file).header.nextOwner + 1 + .ofNat k) (habove : localOwner < owner)
    (hfree : owner ∉ live.map Prod.fst) : ∃ out, acquireToken region file fuel d = out ∧ ∃ a, out.2 = .ok a := by
  induction fuel generalizing d k with
  | zero => omega
  | succ fuel ih =>
    rcases h.acquire_succ hfile rfl fuel with ⟨d₁, taken, htaken, -⟩ | ⟨hused, d₁, hnext, h₁, hfile₁, howner₁⟩
    · exact ⟨_, htaken, _, rfl⟩
    · rw [hnext]
      cases k with
      | zero =>
        -- the id that could not be taken would be the free one
        rw [show (UInt32.ofNat 0) = 0 from rfl, UInt32.add_zero] at howner
        exact absurd ⟨howner ▸ habove, howner ▸ hfree⟩ hused
      | succ k =>
        refine ih h₁ hfile₁ (Nat.lt_of_succ_lt_succ hk) ?_
        rw [howner, howner₁, UInt32.ofNat_add, UInt32.add_comm (.ofNat k), ← UInt32.add_assoc]
        rfl

/-- While there are fewer owners than ids, one is free. -/
theorem exists_free_owner {live : List (UInt32 × FileId)} (hfew : live.length < 2 ^ 32 - 2) :
    ∃ owner : UInt32, localOwner < owner ∧ owner ∉ live.map Prod.fst := by
  by_contra hall
  push Not at hall
  have hsub : List.range' 2 (2 ^ 32 - 2) ⊆ live.map fun a => a.1.toNat := by
    intro n hn
    rw [List.mem_range'_1] at hn
    have hlt : n < UInt32.size := by
      show n < 2 ^ 32
      omega
    have htoNat : (UInt32.ofNat n).toNat = n := UInt32.toNat_ofNat_of_lt' hlt
    have hmem := hall (.ofNat n) (by rw [UInt32.lt_iff_toNat_lt, htoNat]; exact hn.1)
    obtain ⟨a, ha, han⟩ := List.mem_map.1 hmem
    exact List.mem_map.2 ⟨a, ha, by rw [han, htoNat]⟩
  have hle := (List.nodup_range' ..).subperm hsub |>.length_le
  rw [List.length_range', List.length_map] at hle
  omega

theorem Attached.exists_acquire (h : d.Attached region q live) (hfile : file < d.contents.size)
    (hfew : live.length < 2 ^ 32 - 2) :
    ∃ d' owner token, acquireToken region file UInt32.size d = (d', .ok (owner, token)) := by
  obtain ⟨owner, habove, hfree⟩ := exists_free_owner hfew
  generalize hnext : (d.read file).header.nextOwner + 1 = next
  obtain ⟨⟨d', answer⟩, hrun, a, rfl⟩ := h.exists_acquire_of_free hfile (owner - next).toNat_lt
    (by rw [hnext, UInt32.ofNat_toNat, UInt32.add_comm, UInt32.sub_add_cancel]) habove hfree
  exact ⟨d', a.1, a.2, hrun⟩

/-! ### Closing, crashing and cleaning up -/

theorem unlock_locked (d : Disk) (token id : FileId) :
    id ∈ (d.unlock token).locked ↔ id ∈ d.locked ∧ id ≠ token := by
  show id ∈ d.locked.filter _ ↔ _
  rw [List.mem_filter, bne_iff_ne]

/-- The owners but for one of them. -/
def others (live : List (UInt32 × FileId)) (owner : UInt32) : List (UInt32 × FileId) :=
  live.filter fun a => a.1 != owner

theorem mem_others {a : UInt32 × FileId} : a ∈ others live owner ↔ a ∈ live ∧ a.1 ≠ owner := by
  rw [others, List.mem_filter, bne_iff_ne]

/-- An owner that crashes loses its lock; its token stays. -/
theorem Attached.crash (h : d.Attached region q live) (hmem : (owner, token) ∈ live) :
    (d.unlock token).Attached region q (others live owner) := by
  have htokens : ∀ b, (d.unlock token).token? q b = d.token? q b := fun _ => rfl
  refine ⟨h.place.of_sameDirs fun _ => .rfl, ?_, fun a ha => h.above a (mem_others.1 ha).1, fun a ha => ?_,
    fun a ha => ?_, fun b id hid hlocked => ?_, fun a b id ha hb => ?_, fun b id hid => ?_, fun id hid => ?_⟩
  · exact List.Nodup.sublist (List.Sublist.map Prod.fst List.filter_sublist) h.distinct
  · rw [htokens]
    exact h.token a (mem_others.1 ha).1
  · obtain ⟨ha, hne⟩ := mem_others.1 ha
    refine (unlock_locked d token a.2).2 ⟨h.locked a ha, fun htoken => hne ?_⟩
    exact h.eq_of_token ha hmem htoken
  · obtain ⟨hlocked, hne⟩ := (unlock_locked d token id).1 hlocked
    rw [htokens] at hid
    refine mem_others.2 ⟨h.owned b id hid hlocked, ?_⟩
    rintro rfl
    exact hne (Option.some.inj (hid.symm.trans (h.token_of_mem hmem)))
  · rw [htokens] at ha hb
    exact h.apart a b id ha hb
  · rw [htokens] at hid
    exact h.token_lt b id hid
  · exact h.locked_lt id ((unlock_locked d token id).1 hid).1

/-- A token of nobody alive may be removed. -/
theorem Attached.removeToken (h : d.Attached region q live) (hdead : owner ∉ live.map Prod.fst) :
    (d.unlink (tokenPath region owner)).Attached region q live := by
  cases hid : d.token? q owner with
  | none =>
    rw [h.place.unlink_of_none hid]
    exact h
  | some id =>
    rw [h.place.unlink_of_some hid]
    have htoken : ∀ b id, (d.unbind (q.names owner)).token? q b = some id → d.token? q b = some id := by
      intro b id hb
      rw [token?_unbind] at hb
      split_ifs at hb
      exact hb
    refine ⟨h.place.of_sameDirs (sameDirs_unbind (q.isTop_names owner) (h.place.no_dir owner)), h.distinct, h.above,
      fun a ha => ?_, h.locked, fun b id hb hlocked => h.owned b id (htoken b id hb) hlocked,
      fun a b id ha hb => h.apart a b id (htoken a id ha) (htoken b id hb),
      fun b id hb => h.token_lt b id (htoken b id hb), h.locked_lt⟩
    rw [token?_unbind, if_neg]
    · exact h.token a ha
    · rintro rfl
      exact hdead (List.mem_map.2 ⟨a, ha, rfl⟩)

theorem notMem_others (live : List (UInt32 × FileId)) (owner : UInt32) : owner ∉ (others live owner).map Prod.fst := by
  rw [List.mem_map]
  rintro ⟨a, ha, rfl⟩
  exact (mem_others.1 ha).2 rfl

/-- An owner that closes its handle takes its token with it. -/
theorem Attached.close (h : d.Attached region q live) (hmem : (owner, token) ∈ live) :
    (d.releaseToken region owner token).Attached region q (others live owner) :=
  (h.crash hmem).removeToken (notMem_others live owner)

end Disk

/-! ### Any events -/

/-- A disk and the owners alive, each with its token. -/
structure Attaches where
  disk : Disk
  live : List (UInt32 × FileId)

/-- What happens to the owners of a region. -/
inductive AttachEvent where
  | attach
  | close (owner : UInt32)
  | crash (owner : UInt32)
  /-- An owner asks whether another one is alive, and removes the token of a dead one. -/
  | check (asker owner : UInt32)

namespace Attaches

variable {s s' : Attaches} {region : String} {file : FileId}

/-- Whether an owner sees another one alive. -/
def sees (s : Attaches) (region : String) (asker owner : UInt32) : Bool :=
  owner == asker || s.disk.ownerAlive region owner

/-- One event.  Closing, crashing and asking are for owners alive. -/
def step (region : String) (file : FileId) (s : Attaches) : AttachEvent → Except (Stop StoreError) Attaches
  | .attach =>
    match Disk.acquireToken region file UInt32.size s.disk with
    | (_, .error e) => .error e
    | (disk, .ok a) => .ok ⟨disk, a :: s.live⟩
  | .close owner =>
    match s.live.lookup owner with
    | none => .ok s
    | some token => .ok ⟨s.disk.releaseToken region owner token, Disk.others s.live owner⟩
  | .crash owner =>
    match s.live.lookup owner with
    | none => .ok s
    | some token => .ok ⟨s.disk.unlock token, Disk.others s.live owner⟩
  | .check asker owner =>
    if (s.live.lookup asker).isNone || s.sees region asker owner then .ok s
    else .ok ⟨s.disk.removeTokens region [owner], s.live⟩

def run (region : String) (file : FileId) (events : List AttachEvent) (s : Attaches) :
    Except (Stop StoreError) Attaches :=
  events.foldlM (step region file) s

/-- The ids of the owners alive are exact: they are distinct and above that of local owners, each has its own token,
which is there and locked, an owner that asks for another one is told whether it is one of them, and one more can
be added while they are not all in use. -/
structure Exact (s : Attaches) (region : String) (file : FileId) : Prop where
  distinct : (s.live.map Prod.fst).Nodup
  above : ∀ a ∈ s.live, localOwner < a.1
  token : ∀ a ∈ s.live, s.disk.openFile (tokenPath region a.1) = .ok a.2 ∧ s.disk.isLocked a.2 = true
  tokens_distinct : (s.live.map Prod.snd).Nodup
  alive : ∀ (h : Host) (a : Attachment), h.disk = s.disk → a.path = region → (a.owner, a.token) ∈ s.live →
    ∀ owner, (h.ownerOf a).isAlive owner = true ↔ owner ∈ s.live.map Prod.fst
  attach : s.live.length < 2 ^ 32 - 2 →
    ∃ s', s.step region file .attach = .ok s' ∧ s'.live.length = s.live.length + 1

/-- The tokens on the disk are those of the owners alive. -/
def Kept (s : Attaches) (region : String) (q : TokenPlace) (file : FileId) : Prop :=
  s.disk.Attached region q s.live ∧ file < s.disk.contents.size

theorem mem_of_lookup {live : List (UInt32 × FileId)} {owner : UInt32} {token : FileId}
    (h : live.lookup owner = some token) : (owner, token) ∈ live := by
  obtain ⟨before, after, rfl, -⟩ := List.lookup_eq_some_iff.1 h
  exact List.mem_append_right _ List.mem_cons_self

/-- Every event keeps the tokens those of the owners alive. -/
theorem Kept.step {q : TokenPlace} (h : s.Kept region q file) {event : AttachEvent}
    (hrun : s.step region file event = .ok s') : s'.Kept region q file := by
  obtain ⟨hdisk, hfile⟩ := h
  cases event with
  | attach =>
    rw [Attaches.step] at hrun
    generalize UInt32.size = fuel at hrun
    have hsize := (Disk.acquireToken_keeps (P := fun _ => True) (fun _ _ _ => trivial) hfile trivial region fuel).2
    cases htoken : Disk.acquireToken region file fuel s.disk with
    | mk disk answer =>
      rw [htoken] at hrun hsize
      cases answer with
      | error e => cases hrun
      | ok a =>
        cases hrun
        exact ⟨hdisk.of_acquire hfile htoken, hsize⟩
  | close owner =>
    rw [Attaches.step] at hrun
    cases htoken : s.live.lookup owner with
    | none =>
      rw [htoken] at hrun
      cases hrun
      exact ⟨hdisk, hfile⟩
    | some token =>
      rw [htoken] at hrun
      cases hrun
      refine ⟨hdisk.close (mem_of_lookup htoken), ?_⟩
      rwa [Disk.releaseToken, Disk.contents_unlink]
  | crash owner =>
    rw [Attaches.step] at hrun
    cases htoken : s.live.lookup owner with
    | none =>
      rw [htoken] at hrun
      cases hrun
      exact ⟨hdisk, hfile⟩
    | some token =>
      rw [htoken] at hrun
      cases hrun
      exact ⟨hdisk.crash (mem_of_lookup htoken), hfile⟩
  | check asker owner =>
    rw [Attaches.step] at hrun
    split_ifs at hrun with hsees
    · cases hrun
      exact ⟨hdisk, hfile⟩
    · cases hrun
      refine ⟨hdisk.removeToken fun hmem => hsees ?_, ?_⟩
      · rw [Attaches.sees, hdisk.ownerAlive_iff.2 hmem, Bool.or_true, Bool.or_true]
      · rwa [Disk.removeTokens, List.foldl_cons, List.foldl_nil, Disk.contents_unlink]

theorem Kept.run {q : TokenPlace} (h : s.Kept region q file) {events : List AttachEvent}
    (hrun : Attaches.run region file events s = .ok s') : s'.Kept region q file := by
  unfold Attaches.run at hrun
  induction events generalizing s with
  | nil =>
    cases hrun
    exact h
  | cons event events ih =>
    rw [List.foldlM_cons] at hrun
    obtain ⟨s₁, hstep, hrun⟩ := bind_eq_ok_iff.1 hrun
    exact ih (h.step hstep) hrun

theorem Kept.exact {q : TokenPlace} (h : s.Kept region q file) : s.Exact region file := by
  obtain ⟨hdisk, hfile⟩ := h
  refine ⟨hdisk.distinct, hdisk.above, fun a ha => ?_, ?_, fun h a hh ha hmem owner => ?_, fun hfew => ?_⟩
  · exact ⟨hdisk.place.openFile_iff.2 (hdisk.token a ha), List.contains_iff_mem.2 (hdisk.locked a ha)⟩
  · refine List.Nodup.map_on (fun a ha b hb hab => ?_) (List.Nodup.of_map _ hdisk.distinct)
    exact Prod.ext (hdisk.eq_of_token ha hb hab) hab
  · unfold Host.ownerOf
    dsimp only
    rw [Bool.or_eq_true, beq_iff_eq, hh, ha, hdisk.ownerAlive_iff]
    constructor
    · rintro (rfl | halive)
      · exact List.mem_map.2 ⟨_, hmem, rfl⟩
      · exact halive
    · exact .inr
  · obtain ⟨d', owner, token, htoken⟩ := hdisk.exists_acquire hfile hfew
    refine ⟨⟨d', (owner, token) :: s.live⟩, ?_, List.length_cons⟩
    rw [Attaches.step, htoken]

end Attaches

/-- After any events on a region whose tokens can be made, from any owner id handed out last, the ids of the owners
alive are exact. -/
theorem owner_ids_exact {d : Disk} {region : String} {file : FileId} (hready : d.TokensReady region)
    (hfile : file < d.contents.size) (events : List AttachEvent) {s : Attaches}
    (hrun : Attaches.run region file events ⟨d, []⟩ = .ok s) : s.Exact region file := by
  obtain ⟨q, hq⟩ := hready.attached
  have hkept : (⟨d, []⟩ : Attaches).Kept region q file := ⟨hq, hfile⟩
  exact (hkept.run hrun).exact

/-- A region that handed out one of the last ids, with a token of owner 2 beside it that was left behind. -/
def staleDisk : Disk :=
  ⟨[(["region"], .file 0), (["region.owner-2"], .file 1)],
    #[.ofRegion ((Region.create 4 2).withOwner 0xfffffffe), .empty], []⟩

/-- Two owners, of which the second takes the token left behind and crashes; the first then asks for it. -/
def wrappingEvents : List AttachEvent :=
  [.attach, .attach, .crash 2, .check 0xffffffff 2, .attach, .check 3 2]

theorem owner_ids_exact_wrappingEvents :
    ∃ s, Attaches.run "region" 0 wrappingEvents ⟨staleDisk, []⟩ = .ok s ∧
      s.live.map Prod.fst = [3, 0xffffffff] ∧ s.Exact "region" 0 := by
  obtain ⟨s, hrun, hlive⟩ := bind_eq_ok_iff.1 (by decide +kernel : (do
    let s ← Attaches.run "region" 0 wrappingEvents ⟨staleDisk, []⟩
    return s.live.map Prod.fst) = Except.ok [3, 0xffffffff])
  have htarget : staleDisk.target "region" = .ok ⟨[], "region", false⟩ := by rfl
  have hready : staleDisk.TokensReady "region" :=
    Disk.tokensReady_of_files htarget rfl (by decide) (by decide) (by decide) (by decide) rfl
  exact ⟨s, hrun, Except.ok.inj hlive, owner_ids_exact hready (by decide) wrappingEvents hrun⟩

end ProcProfile
