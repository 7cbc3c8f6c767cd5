import Mathlib.Tactic
import ProcProfile.Proofs.Region.Failures

/-!
# Folding and reading by the map of chunks

What is read about an incarnation, and what a fold into its profile does, depend on its own chunks alone: on which
numbers there are and what they hold.  Neither the slots nor the chunks of other incarnations matter, and the latter
stay as they are.

* `chainIn`, `storedRecords_eq`, `storedRecords_congr`: reading a profile from the map of chunks;
* `dump_eq_filter`, `dump_filter_congr`: the part of a dump that is about some chunks or incarnations;
* `mergedIn`, `mergedPages_eq`, `fold_stored`: merging a call into a stored profile, from the map of chunks;
* `endsIn_fold`: a fold answers unless a sum overflows;
* `gainedPages`, `fold_accepted`: what a fold that is accepted puts into the map;
* `fold_others`: a fold leaves the chunks of other incarnations as they were.
-/

namespace ProcProfile

/-- The records of the chunks of a region, by their keys. -/
abbrev ChunkMap := ChunkKey → Option (List Record)

namespace Region

variable {r r' : Region} {id : Identity}

/-! ### Reading -/

/-- The records of chunk `key`, which are `page`, and those of all chunks that follow it. -/
def chainIn (a : ChunkMap) : (fuel : Nat) → (key : ChunkKey) → (page : List Record) →
    Except Fault (List Record)
  | 0, _, _ => .ok []
  | fuel + 1, key, page => do
    let next ← key.next
    match a next with
    | none => return page
    | some page' => do
      let rest ← chainIn a fuel next page'
      return page ++ rest

theorem chainRecords_eq_chainIn (r : Region) (fuel : Nat) (key : ChunkKey) (i : Nat) :
    r.chainRecords fuel key i = chainIn r.chunk? fuel key (r.page i) := by
  induction fuel generalizing key i with
  | zero => rfl
  | succ fuel ih =>
    rw [chainRecords, chainIn]
    refine congrArg (key.next >>= ·) (funext fun next => ?_)
    rw [chunk?]
    cases r.find? next with
    | none => rfl
    | some j =>
      rw [Option.map_some]
      dsimp only
      rw [ih]

/-- Chains of two incarnations with the same pages. -/
theorem chainIn_congr {a a' : ChunkMap} {id' : Identity}
    (h : ∀ m < 2 ^ 15, a' (.nth id' m) = a (.nth id m)) (fuel : Nat) {m : Nat} (hm : m < 2 ^ 15)
    (page : List Record) : chainIn a' fuel (.nth id' m) page = chainIn a fuel (.nth id m) page := by
  induction fuel generalizing m page with
  | zero => rfl
  | succ fuel ih =>
    rw [chainIn, chainIn, ChunkKey.next_nth id' hm, ChunkKey.next_nth id hm]
    by_cases hlast : m + 1 < 2 ^ 15
    · rw [if_pos hlast, if_pos hlast]
      dsimp only [bind, Except.bind]
      rw [h (m + 1) hlast]
      cases a (.nth id (m + 1)) with
      | none => rfl
      | some page' =>
        dsimp only
        rw [ih hlast]
    · rw [if_neg hlast, if_neg hlast]
      rfl

theorem storedRecords_eq (r : Region) (id : Identity) :
    r.storedRecords id =
      (r.chunk? (.first id)).elim (.ok none) fun page =>
        some <$> chainIn r.chunk? chunkNumberBound (.first id) page := by
  unfold storedRecords
  generalize chunkNumberBound = fuel
  rw [chunk?]
  cases r.find? (.first id) with
  | none => rfl
  | some i =>
    dsimp only [Option.map_some, Option.elim_some]
    rw [chainRecords_eq_chainIn]

/-- Two incarnations with the same pages are read alike. -/
theorem storedRecords_congr {id' : Identity}
    (h : ∀ m < 2 ^ 15, r'.chunk? (.nth id' m) = r.chunk? (.nth id m)) :
    r'.storedRecords id' = r.storedRecords id := by
  have hone : 1 < 2 ^ 15 := by norm_num
  rw [storedRecords_eq, storedRecords_eq, ChunkKey.first_eq_nth, ChunkKey.first_eq_nth, h 1 hone]
  generalize chunkNumberBound = fuel
  congr 1
  funext page
  rw [chainIn_congr h fuel hone]

theorem readRecords_congr (h : r.Settled) (h' : r'.Settled)
    (hchunks : ∀ key, key.identity = id → r'.chunk? key = r.chunk? key) (o : Owner) :
    Access.answer <$> r'.readRecords o id = Access.answer <$> r.readRecords o id := by
  rw [(reads_readRecords h' o id).answer_eq, (reads_readRecords h o id).answer_eq,
    storedRecords_congr fun m _ => hchunks _ rfl]

theorem foundChunk_eq (r : Region) (id : Identity) (number : ChunkNumber) :
    r.foundChunk id number = (r.chunk? (.new id number)).bind fun page =>
      if number = 1 then some ⟨.new id number, page⟩
      else (r.chunk? (.first id)).map fun _ => ⟨.new id number, page⟩ := by
  unfold foundChunk chunk?
  cases r.find? (.new id number) with
  | none => rfl
  | some i =>
    rw [Option.map_some, Option.bind_some, Option.bind_some, Option.map_map]
    split_ifs <;> rfl

theorem findChunk_congr (h : r.Settled) (h' : r'.Settled)
    (hchunks : ∀ key, key.identity = id → r'.chunk? key = r.chunk? key) (o : Owner) (number : ChunkNumber) :
    Access.answer <$> r'.findChunk o id number = Access.answer <$> r.findChunk o id number := by
  rw [(reads_findChunk h' o id number).answer_eq, (reads_findChunk h o id number).answer_eq, foundChunk_eq,
    foundChunk_eq, hchunks (.new id number) rfl, hchunks (.first id) rfl]

theorem Tidy.pairwise_rank_dump (h : r.Tidy) : r.dump.Pairwise fun c d => c.key.rank < d.key.rank := by
  refine Region.pairwise_rank_dump h.settled.sound fun key page hpage => ?_
  obtain ⟨i, hi, -⟩ := (chunk?_eq_some_iff h.settled.sound).1 hpage
  exact h.filler i key hi

/-- Where some chunks are left and no others, the dump is the part about them. -/
theorem dump_eq_filter (h : r.Tidy) (h' : r'.Tidy) {q : ChunkKey → Bool}
    (hchunks : ∀ key, r'.chunk? key = if q key then r.chunk? key else none) :
    r'.dump = r.dump.filter fun c => q c.key := by
  refine eq_of_pairwise_rank h'.pairwise_rank_dump (h.pairwise_rank_dump.filter _) fun c => ?_
  rw [List.mem_filter, mem_dump h'.settled.sound, mem_dump h.settled.sound, hchunks]
  split_ifs with hq
  · simp [hq]
  · simp [hq]

/-- Where the chunks of some incarnations are the same, so is the part of the dump about them. -/
theorem dump_filter_congr (h : r.Tidy) (h' : r'.Tidy) {q : Identity → Bool}
    (hchunks : ∀ key, q key.identity = true → r'.chunk? key = r.chunk? key) :
    (r'.dump.filter fun c => q c.key.identity) = r.dump.filter fun c => q c.key.identity := by
  refine eq_of_pairwise_rank (h'.pairwise_rank_dump.filter _) (h.pairwise_rank_dump.filter _) fun c => ?_
  rw [List.mem_filter, List.mem_filter, mem_dump h'.settled.sound, mem_dump h.settled.sound]
  refine and_congr_left fun hq => ?_
  rw [hchunks c.key hq]

/-! ### Merging into a stored profile -/

/-- The pages of a call merged into those of a stored profile: `page` into chunk `key`, which holds `stored`, and
`pages` into the chunks after it. -/
def mergedIn (a : ChunkMap) : (stored page : List Record) → (pages : List (List Record)) → (key : ChunkKey) →
    Except (Stop StoreError) (List (List Record))
  | stored, page, [], key => do
    let merged ← mergePage stored page
    let next ← Stop.ofFault key.next
    if (a next).isSome then .error (.error (.unexpectedChunk next.identity.unitId next.number))
    else return [merged]
  | stored, page, page' :: pages, key => do
    let merged ← mergePage stored page
    let next ← Stop.ofFault key.next
    match a next with
    | none => .error (.error (.missingChunk next.identity.unitId next.number))
    | some stored' => do
      let rest ← mergedIn a stored' page' pages next
      return merged :: rest

theorem mergedPages_eq (r : Region) (page : List Record) (pages : List (List Record)) (key : ChunkKey)
    (i : Nat) :
    List.map Prod.snd <$> r.mergedPages page pages key i = mergedIn r.chunk? (r.page i) page pages key := by
  induction pages generalizing page key i with
  | nil =>
    rw [mergedPages, mergedIn]
    cases mergePage (r.page i) page with
    | error e => rfl
    | ok merged =>
      cases key.next with
      | error f => rfl
      | ok next =>
        dsimp only [bind, Except.bind, Stop.ofFault_ok]
        rw [chunk?, Option.isSome_map]
        split_ifs <;> rfl
  | cons page' pages ih =>
    rw [mergedPages, mergedIn]
    cases mergePage (r.page i) page with
    | error e => rfl
    | ok merged =>
      cases key.next with
      | error f => rfl
      | ok next =>
        dsimp only [bind, Except.bind, Stop.ofFault_ok]
        rw [chunk?]
        cases r.find? next with
        | none => rfl
        | some j =>
          rw [Option.map_some]
          dsimp only
          rw [← ih page' next j]
          cases r.mergedPages page' pages next j <;> rfl

/-- The merged pages go to the slots of the chunks that they were merged with. -/
theorem targets_of_mergedPages (h : r.Sound) {page : List Record} {pages : List (List Record)} {m i : Nat}
    {writes : List (Nat × List Record)} (hm : m < 2 ^ 15) (hi : r.chunks.Holds i (.nth id m))
    (hrun : r.mergedPages page pages (.nth id m) i = .ok writes) :
    Targets r id m (writes.map Prod.snd) writes := by
  induction pages generalizing page m i writes with
  | nil =>
    rw [mergedPages] at hrun
    obtain ⟨merged, -, hrun⟩ := bind_eq_ok_iff.1 hrun
    obtain ⟨next, -, hrun⟩ := bind_eq_ok_iff.1 hrun
    split_ifs at hrun
    cases hrun
    exact .cons hi ⟨rfl, fun j i' hj => by simp at hj⟩
  | cons page' pages ih =>
    rw [mergedPages, ChunkKey.next_nth id hm] at hrun
    obtain ⟨merged, -, hrun⟩ := bind_eq_ok_iff.1 hrun
    obtain ⟨next, hnext, hrun⟩ := bind_eq_ok_iff.1 hrun
    by_cases hlast : m + 1 < 2 ^ 15
    · rw [if_pos hlast] at hnext
      cases hnext
      cases hfind : r.find? (.nth id (m + 1)) with
      | none =>
        rw [hfind] at hrun
        cases hrun
      | some j =>
        rw [hfind] at hrun
        obtain ⟨rest, hrest, hrun⟩ := bind_eq_ok_iff.1 hrun
        cases hrun
        exact .cons hi (ih hlast (holds_of_find? h hfind) hrest)
    · rw [if_neg hlast] at hnext
      cases hnext

/-- The pages of a call merged into a profile whose chunk 1 holds `stored`. -/
def mergedProfile (a : ChunkMap) (id : Identity) (stored records : List Record) :
    Except (Stop StoreError) (List (List Record)) :=
  mergedIn a stored (records.take recordsPerChunk)
    (cutPages (chunksNeeded records.length - 1) (records.drop recordsPerChunk)) (.nth id 1)

/-- A fold into a stored profile puts the merged pages, or leaves the same chunks in the same slots and answers why,
or faults. -/
theorem fold_stored (h : r.Settled) {stored : List Record} (hfirst : r.chunk? (.first id) = some stored)
    (o : Owner) (records : List Record) :
    (∀ pages, mergedProfile r.chunk? id stored records = .ok pages →
      ∃ r', r.fold o id records = .ok ⟨r', [], .ok ()⟩ ∧ Rewritten r r' ∧
        r'.chunk? = putPages r.chunk? id 1 pages) ∧
    (∀ e, mergedProfile r.chunk? id stored records = .error (.error e) →
      ∃ r', r.fold o id records = .ok ⟨r', [], .error e⟩ ∧ Same r r') ∧
    ∀ f, mergedProfile r.chunk? id stored records = .error (.fault f) → r.fold o id records = .error f := by
  obtain ⟨i, hi, rfl⟩ := (chunk?_eq_some_iff h.sound).1 hfirst
  have hfind : r.find? (.first id) = some i := (Table.find?_eq_some_iff h.sound.chunks.sound).2 hi
  have hlocked := h.sound.relock i o.id
  have hn : chunksNeeded records.length = chunksNeeded records.length - 1 + 1 := by
    have := chunksNeeded_pos records.length
    omega
  have hview := (r.relock i o.id).mergedPages_eq (records.take recordsPerChunk)
    (cutPages (chunksNeeded records.length - 1) (records.drop recordsPerChunk)) (.nth id 1) i
  rw [page_relock, chunk?_relock h.sound] at hview
  unfold mergedProfile
  rw [Stores.fold_eq h hfind o hn, ← hview]
  refine ⟨fun pages hpages => ?_, fun e he => ?_, fun f hf => ?_⟩
  · obtain ⟨writes, hwrites, rfl⟩ := map_eq_ok_iff.1 hpages
    obtain ⟨hrw, hput⟩ := writePages_eq hlocked
      (targets_of_mergedPages hlocked (by norm_num) ((r.holds_relock i o.id i _).2 hi) hwrites)
    refine ⟨_, by rw [hwrites], hrw.unlock h hi.1, ?_⟩
    rw [chunk?_relock hrw.sound, hput, chunk?_relock h.sound]
  · cases hmerged : (r.relock i o.id).mergedPages (records.take recordsPerChunk)
      (cutPages (chunksNeeded records.length - 1) (records.drop recordsPerChunk)) (.nth id 1) i with
    | ok writes =>
      rw [hmerged] at he
      cases he
    | error s =>
      rw [hmerged] at he
      cases he
      exact ⟨_, rfl, same_relock h hi.1 o.id⟩
  · cases hmerged : (r.relock i o.id).mergedPages (records.take recordsPerChunk)
      (cutPages (chunksNeeded records.length - 1) (records.drop recordsPerChunk)) (.nth id 1) i with
    | ok writes =>
      rw [hmerged] at hf
      cases hf
    | error s =>
      rw [hmerged] at hf
      cases hf
      rfl

/-! ### What stops a fold -/

/-- Whatever stops a step, no fault does but a sum that overflows. -/
def OnlySums (s : Stop StoreError) : Prop := ∀ f, s = .fault f → f = .addOverflow

theorem onlySums_ofFault {α : Type} {P : α → Prop} {x : Except Fault α} (h : EndsIn P (· = .addOverflow) x) :
    EndsIn P OnlySums (Stop.ofFault x) := by
  refine Stop.endsIn_ofFault (h.imp (fun _ hP => hP) fun f hf => ?_)
  rintro f' ⟨⟩
  exact hf

theorem endsIn_next (key : ChunkKey) :
    EndsIn (fun next => next.identity = key.identity) (· = .addOverflow) key.next := by
  unfold ChunkKey.next ChunkNumber.next
  split_ifs
  · exact .ok rfl
  · exact .error rfl

theorem endsIn_merge (x y : Record) : EndsIn (fun _ => True) (· = .addOverflow) (x.merge y) := by
  unfold Record.merge
  exact .bind (Counter.endsIn_add fun _ => rfl) fun _ _ => .bind (Counter.endsIn_add fun _ => rfl) fun _ _ =>
    .bind (Counter.endsIn_add fun _ => rfl) fun _ _ => .bind (Counter.endsIn_add fun _ => rfl) fun _ _ =>
    .ok trivial

theorem endsIn_mergePage (stored page : List Record) :
    EndsIn (fun _ => True) OnlySums (mergePage stored page) := by
  induction stored generalizing page with
  | nil => exact .ok trivial
  | cons x rest ih =>
    cases page with
    | nil =>
      rw [mergePage]
      split_ifs
      · exact .error fun _ h => by cases h
      · exact .ok trivial
    | cons y page =>
      rw [mergePage]
      split_ifs
      · exact .error fun _ h => by cases h
      · exact (onlySums_ofFault (endsIn_merge x y)).bind fun _ _ => (ih page).bind fun _ _ => .ok trivial

theorem endsIn_mergedIn (a : ChunkMap) (stored page : List Record) (pages : List (List Record))
    (key : ChunkKey) : EndsIn (fun _ => True) OnlySums (mergedIn a stored page pages key) := by
  induction pages generalizing stored page key with
  | nil =>
    rw [mergedIn]
    refine (endsIn_mergePage stored page).bind fun _ _ => (onlySums_ofFault (endsIn_next key)).bind fun _ _ => ?_
    split_ifs
    · exact .error fun _ h => by cases h
    · exact .ok trivial
  | cons page' pages ih =>
    rw [mergedIn]
    refine (endsIn_mergePage stored page).bind fun _ _ =>
      (onlySums_ofFault (endsIn_next key)).bind fun next _ => ?_
    cases a next with
    | none => exact .error fun _ h => by cases h
    | some stored' => exact (ih stored' page' next).bind fun _ _ => .ok trivial

theorem endsIn_createChunks (pages : List (List Record)) (key : ChunkKey) (created : List Nat) (r : Region) :
    EndsIn (fun _ => True) (· = .addOverflow) (createChunks pages key created r) := by
  induction pages generalizing key created r with
  | nil => exact .ok trivial
  | cons page pages ih =>
    rw [createChunks]
    obtain ⟨r', answer⟩ := r.insert key
    cases answer with
    | error e => exact .ok trivial
    | ok i => exact (endsIn_next key).bind fun next _ => ih next _ _

/-- A fold answers unless a sum overflows. -/
theorem endsIn_fold (h : r.Settled) (o : Owner) (id : Identity) (records : List Record) :
    EndsIn (fun _ => True) (· = .addOverflow) (r.fold o id records) := by
  cases hfirst : r.chunk? (.first id) with
  | none =>
    have hfind : r.find? (.first id) = none := by rwa [chunk?, Option.map_eq_none_iff] at hfirst
    rw [fold, hfind]
    exact (endsIn_createChunks ..).bind fun _ _ => .ok trivial
  | some stored =>
    obtain ⟨hok, herror, hfault⟩ := fold_stored h hfirst o records
    have hends : EndsIn (fun _ => True) OnlySums (mergedProfile r.chunk? id stored records) :=
      endsIn_mergedIn ..
    cases hmerged : mergedProfile r.chunk? id stored records with
    | ok pages =>
      obtain ⟨r', hfold, -⟩ := hok pages hmerged
      rw [hfold]
      exact .ok trivial
    | error s =>
      rw [hmerged, endsIn_error_iff] at hends
      cases s with
      | error e =>
        obtain ⟨r', hfold, -⟩ := herror e hmerged
        rw [hfold]
        exact .ok trivial
      | fault f =>
        rw [hfault f hmerged]
        exact .error (hends f rfl)

/-! ### What a fold leaves -/

theorem Inserted.absent {key : ChunkKey} {i : Nat} (hi : Inserted r key i r') (h : r.Sound) :
    r.chunk? key = none := by
  refine (chunk?_eq_none_iff h).2 fun j hj => ?_
  have hself : r'.chunks.Holds i key := (hi.holds i key).2 (.inl ⟨rfl, rfl⟩)
  obtain rfl : i = j := hi.settled.sound.chunks.sound.unique hself ((hi.holds j key).2 (.inr hj))
  exact hi.fresh hj.1

/-- Chunks that could all be created hold the pages. -/
theorem chunk?_createChunks (h : r.Settled) {pages : List (List Record)} {m : Nat} (hm : m < 2 ^ 15)
    {created : List Nat} (hrun : createChunks pages (.nth id m) created r = .ok (r', .ok ())) :
    r'.chunk? = putPages r.chunk? id m (pages.map fillPage) := by
  induction pages generalizing r m created with
  | nil =>
    cases hrun
    rfl
  | cons page pages ih =>
    rw [createChunks] at hrun
    rcases h.insert (.nth id m) with ⟨e, he⟩ | ⟨i, r₁, he, hi⟩
    · rw [he] at hrun
      cases hrun
    · have hholds : r₁.chunks.Holds i (.nth id m) := (hi.holds i _).2 (.inl ⟨rfl, rfl⟩)
      rw [he] at hrun
      dsimp only at hrun
      rw [ChunkKey.next_nth id hm] at hrun
      by_cases hlast : m + 1 < 2 ^ 15
      · rw [if_pos hlast] at hrun
        have hsettled := (rewritten_writePage hi.settled.sound i (fillPage page)).settled hi.settled
        rw [ih hsettled hlast hrun, chunk?_writePage hi.settled.sound hholds,
          hi.chunk?_eq h.sound (hi.absent h.sound), Function.update_idem, List.map_cons, putPages]
      · rw [if_neg hlast] at hrun
        cases hrun

/-- The pages of a profile after a call of it: those of the call alone if it is the first one, or else the merged
ones. -/
def gainedPages (a : ChunkMap) (id : Identity) (records : List Record) :
    Except (Stop StoreError) (List (List Record)) :=
  (a (.first id)).elim (.ok ((pagesOf records).map fillPage)) fun stored => mergedProfile a id stored records

/-- A fold that is accepted puts the pages with the call, and nothing else. -/
theorem fold_accepted (h : r.Settled) {o : Owner} {records : List Record}
    {access : Access (Except StoreError Unit)} (hrun : r.fold o id records = .ok access)
    (hok : access.answer = .ok ()) :
    ∃ pages, gainedPages r.chunk? id records = .ok pages ∧
      access.region.chunk? = putPages r.chunk? id 1 pages := by
  unfold gainedPages
  cases hfirst : r.chunk? (.first id) with
  | none =>
    have hfind : r.find? (.first id) = none := by rwa [chunk?, Option.map_eq_none_iff] at hfirst
    rw [fold, hfind] at hrun
    obtain ⟨⟨r', answer⟩, hcreate, hrun⟩ := bind_eq_ok_iff.1 hrun
    cases hrun
    obtain rfl : answer = .ok () := hok
    exact ⟨_, rfl, chunk?_createChunks h (by norm_num) hcreate⟩
  | some stored =>
    obtain ⟨hmerge, herror, hfault⟩ := fold_stored h hfirst o records
    rw [Option.elim_some]
    cases hmerged : mergedProfile r.chunk? id stored records with
    | ok pages =>
      obtain ⟨r', hfold, -, hview⟩ := hmerge pages hmerged
      rw [hfold] at hrun
      cases hrun
      exact ⟨pages, rfl, hview⟩
    | error s =>
      cases s with
      | error e =>
        obtain ⟨r', hfold, -⟩ := herror e hmerged
        rw [hfold] at hrun
        cases hrun
        cases hok
      | fault f =>
        rw [hfault f hmerged] at hrun
        cases hrun

/-- A fold leaves the chunks of other incarnations as they were. -/
theorem fold_others (h : r.Tidy) {o : Owner} {records : List Record}
    {access : Access (Except StoreError Unit)} (hrun : r.fold o id records = .ok access) {key : ChunkKey}
    (hkey : key.identity ≠ id) : access.region.chunk? key = r.chunk? key := by
  cases hanswer : access.answer with
  | error e => rw [((h.fold hrun).2 e hanswer).chunk?_eq h.settled.sound]
  | ok u =>
    obtain ⟨pages, -, hview⟩ := fold_accepted h.settled hrun hanswer
    rw [hview, putPages_of_ne]
    rintro j - rfl
    exact hkey rfl

end Region

end ProcProfile
