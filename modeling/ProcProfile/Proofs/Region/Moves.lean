import Mathlib.Tactic
import ProcProfile.Proofs.Region.Views

/-!
# What operations do to a region

Every operation on a region comes down to a few changes of single slots, of all slots of a table, and of the two
counts in the header.  A lock word that an operation takes is 0 afterwards, and a slot that is taken for a new entry
begins with the word 0; no other word is changed.

* `Region.Moves`: the changes, one after another;
* `Region.fold_moves`, `Region.reset_moves`, `Region.recordCall_moves`, …: every operation is made of them;
* `Region.Moves.frame`: what all of them leave as it was;
* `Region.Moves.slots`: a property of the pages and keys in chunk slots that they keep.
-/

namespace ProcProfile

/-! ### Lock words -/

namespace Table

variable {κ ν : Type} [Inhabited κ] [Inhabited ν] {t t' : Table κ ν}

/-- The lock words of a table that are not those of another table are 0. -/
def FreedFrom (t t' : Table κ ν) : Prop :=
  ∀ i, (t'.get i).mutex = 0 ∨ (t'.get i).mutex = (t.get i).mutex

theorem freedFrom_refl (t : Table κ ν) : FreedFrom t t := fun _ => .inr rfl

theorem FreedFrom.trans {t'' : Table κ ν} (h : FreedFrom t t') (h' : FreedFrom t' t'') : FreedFrom t t'' := by
  intro i
  rcases h' i with hzero | hsame
  · exact .inl hzero
  · rw [hsame]
    exact h i

theorem get_modify_cases (t : Table κ ν) (i : Nat) (f : Slot κ ν → Slot κ ν) (j : Nat) :
    (t.modify i f).get j = f (t.get j) ∨ (t.modify i f).get j = t.get j := by
  rw [get_modify]
  split_ifs
  · exact .inl rfl
  · exact .inr rfl

theorem get_place_cases (t : Table κ ν) (i : Nat) (key : κ) (value : ν) (j : Nat) :
    (t.place i key value).get j = ⟨Slot.usedWord, 0, key, value⟩ ∨ (t.place i key value).get j = t.get j :=
  t.get_modify_cases i (fun _ => ⟨Slot.usedWord, 0, key, value⟩) j

/-- Changing a slot and keeping a property of slots. -/
theorem forall_get_modify {P : Slot κ ν → Prop} (h : ∀ j, P (t.get j)) (i : Nat) {f : Slot κ ν → Slot κ ν}
    (hf : ∀ s, P s → P (f s)) (j : Nat) : P ((t.modify i f).get j) := by
  rcases t.get_modify_cases i f j with hget | hget
  · rw [hget]
    exact hf _ (h j)
  · rw [hget]
    exact h j

/-- Changing a slot and not its lock word. -/
theorem freedFrom_modify (t : Table κ ν) (i : Nat) {f : Slot κ ν → Slot κ ν} (hf : ∀ s, (f s).mutex = s.mutex) :
    FreedFrom t (t.modify i f) := by
  intro j
  rcases t.get_modify_cases i f j with h | h
  · rw [h, hf]
    exact .inr rfl
  · rw [h]
    exact .inr rfl

theorem freedFrom_place (t : Table κ ν) (i : Nat) (key : κ) (value : ν) : FreedFrom t (t.place i key value) := by
  intro j
  rcases t.get_place_cases i key value j with h | h
  · rw [h]
    exact .inl rfl
  · rw [h]
    exact .inr rfl

theorem freedFrom_remove (t : Table κ ν) (i : Nat) : FreedFrom t (t.remove i) := by
  unfold remove
  split_ifs
  · exact freedFrom_modify t i fun _ => rfl
  · exact freedFrom_refl t

theorem freedFrom_clear (t : Table κ ν) : FreedFrom t t.clear := by
  intro i
  rw [get_clear]
  exact .inr rfl

theorem mutex_setMutex_zero (t : Table κ ν) (i : Nat) : ((t.setMutex i 0).get i).mutex = 0 := by
  rw [get_setMutex]
  split_ifs with hi
  · rfl
  · rw [t.get_of_size_le (Nat.not_lt.1 fun hlt => hi ⟨rfl, hlt⟩)]
    rfl

theorem get_setMutex_of_ne (t : Table κ ν) {i j : Nat} (h : i ≠ j) (word : UInt32) :
    (t.setMutex i word).get j = t.get j := by
  rw [get_setMutex, if_neg fun hi => h hi.1]

/-- A lock that was taken is free afterwards, whatever word it had. -/
theorem FreedFrom.held {i : Nat} {word : UInt32} (h : FreedFrom (t.setMutex i word) t') :
    FreedFrom t (t'.setMutex i 0) := by
  intro j
  by_cases hj : i = j
  · subst hj
    exact .inl (mutex_setMutex_zero t' i)
  · rw [get_setMutex_of_ne t' hj, ← get_setMutex_of_ne t hj word]
    exact h j

end Table

namespace Region

variable {A : List Record → Prop} {r r' q : Region}

/-- The changes that operations are made of.  Only pages with the property `A` are written into chunk slots, beside
pages of unused records. -/
inductive Moves (A : List Record → Prop) : Region → Region → Prop
  | refl (r : Region) : Moves A r r
  | trans {r r' q : Region} : Moves A r r' → Moves A r' q → Moves A r q
  | insert {r r' : Region} {key : ChunkKey} {i : Nat} (hkey : key.filler = 0) (h : r.insert key = (r', .ok i)) :
      Moves A r r'
  | remove (r : Region) (i : Nat) : Moves A r (r.remove i)
  | clear (r : Region) : Moves A r r.clear
  | writePage (r : Region) (i : Nat) {page : List Record} (h : A page) : Moves A r (r.writePage i page)
  | insertUnit {r r' : Region} {key : UnitKey} {i : Nat} (h : r.insertUnit key = (r', .ok i)) : Moves A r r'
  | removeUnit (r : Region) (i : Nat) : Moves A r (r.removeUnit i)
  | clearUnits (r : Region) : Moves A r r.clearUnits
  | writeStats (r : Region) (i : Nat) (stats : CallStats) : Moves A r (r.writeStats i stats)
  /-- What is done while a lock is held, from taking it to giving it back. -/
  | heldChunk {r q : Region} (i : Nat) (word : UInt32) : Moves A (r.relock i word) q → Moves A r (q.relock i 0)
  | heldUnit {r q : Region} (i : Nat) (word : UInt32) : Moves A (r.relockUnit i word) q → Moves A r (q.relockUnit i 0)

theorem layout_relock (r : Region) (i : Nat) (word : UInt32) : (r.relock i word).layout = r.layout := by
  unfold relock layout capacity unitCapacity
  rw [Table.size_setMutex]

theorem layout_relockUnit (r : Region) (i : Nat) (word : UInt32) : (r.relockUnit i word).layout = r.layout := by
  unfold relockUnit layout capacity unitCapacity
  rw [Table.size_setMutex]

/-! ### Held locks -/

theorem withChunk_moves {α : Type} {o : Owner} {i : Nat} {body : Region → Except Fault (Region × α)}
    {access : Access α} (hrun : r.withChunk o i body = .ok access)
    (hbody : ∀ q answer, body (r.relock i o.id) = .ok (q, answer) → Moves A (r.relock i o.id) q) :
    Moves A r access.region := by
  obtain ⟨retired, -, hrun⟩ := bind_eq_ok_iff.1 hrun
  obtain ⟨⟨q, answer⟩, hq, hrun⟩ := bind_eq_ok_iff.1 hrun
  cases hrun
  exact .heldChunk i o.id (hbody q answer hq)

theorem withUnit_moves {α : Type} {o : Owner} {i : Nat} {body : Region → Except Fault (Region × α)}
    {access : Access α} (hrun : r.withUnit o i body = .ok access)
    (hbody : ∀ q answer, body (r.relockUnit i o.id) = .ok (q, answer) → Moves A (r.relockUnit i o.id) q) :
    Moves A r access.region := by
  obtain ⟨retired, -, hrun⟩ := bind_eq_ok_iff.1 hrun
  obtain ⟨⟨q, answer⟩, hq, hrun⟩ := bind_eq_ok_iff.1 hrun
  cases hrun
  exact .heldUnit i o.id (hbody q answer hq)

/-! ### Profiles -/

/-- An insertion that fails changes nothing. -/
theorem insert_error {key : ChunkKey} {e : StoreError} (h : r.insert key = (r', .error e)) : r' = r := by
  unfold Region.insert at h
  split at h
  · cases h
    rfl
  · cases h
    rfl
  · cases h

theorem insertChunk_moves (r : Region) (id : Identity) (number : ChunkNumber) :
    Moves A r (r.insertChunk id number).1 := by
  unfold insertChunk
  dsimp only
  cases hout : r.insert (.new id number) with
  | mk r₁ out =>
    cases out with
    | error e =>
      rw [insert_error hout]
      exact .refl r
    | ok i => exact .insert rfl hout

theorem removeAll_moves (r : Region) (slots : List Nat) : Moves A r (slots.foldl Region.remove r) := by
  induction slots generalizing r with
  | nil => exact .refl r
  | cons i slots ih => exact .trans (.remove r i) (ih (r.remove i))

theorem filler_next {key next : ChunkKey} (h : key.next = .ok next) : next.filler = 0 := by
  obtain ⟨number, -, rfl⟩ := map_eq_ok_iff.1 h
  rfl

theorem createChunks_moves {pages : List (List Record)} {key : ChunkKey} {created : List Nat}
    {answer : Except StoreError Unit} (hpages : ∀ page ∈ pages, A (fillPage page)) (hkey : key.filler = 0)
    (hrun : createChunks pages key created r = .ok (q, answer)) : Moves A r q := by
  induction pages generalizing r key created with
  | nil =>
    cases hrun
    exact .refl _
  | cons page pages ih =>
    rw [createChunks] at hrun
    cases hout : r.insert key with
    | mk r₁ out =>
      rw [hout] at hrun
      cases out with
      | error e =>
        cases hrun
        rw [insert_error hout]
        exact removeAll_moves r created
      | ok i =>
        obtain ⟨next, hnext, hrun⟩ := bind_eq_ok_iff.1 hrun
        have hhere : Moves A r (r₁.writePage i (fillPage page)) :=
          .trans (.insert hkey hout) (.writePage r₁ i (hpages page List.mem_cons_self))
        have hrest := ih (fun page' hpage' => hpages page' (List.mem_cons_of_mem _ hpage')) (filler_next hnext) hrun
        exact .trans hhere hrest

theorem writePages_moves (r : Region) {writes : List (Nat × List Record)} (h : ∀ w ∈ writes, A w.2) :
    Moves A r (r.writePages writes) := by
  unfold writePages
  induction writes generalizing r with
  | nil => exact .refl r
  | cons w writes ih =>
    exact .trans (.writePage r w.1 (h w List.mem_cons_self))
      (ih (r.writePage w.1 w.2) fun w' hw' => h w' (List.mem_cons_of_mem _ hw'))

/-- A property of pages that folding some records into them keeps. -/
structure FoldKeeps (A : List Record → Prop) (records : List Record) : Prop where
  new : ∀ page ∈ pagesOf records, A (fillPage page)
  merged : ∀ stored page merged, A stored → page ∈ pagesOf records → mergePage stored page = .ok merged → A merged

theorem mergedPages_allowed {page : List Record} {pages : List (List Record)} {key : ChunkKey} {i : Nat}
    {writes : List (Nat × List Record)} (hstored : ∀ i, A (r.page i))
    (hmerge : ∀ stored merged, ∀ p ∈ page :: pages, A stored → mergePage stored p = .ok merged → A merged)
    (hrun : r.mergedPages page pages key i = .ok writes) : ∀ w ∈ writes, A w.2 := by
  induction pages generalizing page key i writes with
  | nil =>
    obtain ⟨merged, hmerged, hrun⟩ := bind_eq_ok_iff.1 hrun
    obtain ⟨next, -, hrun⟩ := bind_eq_ok_iff.1 hrun
    split_ifs at hrun
    cases hrun
    intro w hw
    rw [List.mem_singleton.1 hw]
    exact hmerge _ merged page List.mem_cons_self (hstored i) hmerged
  | cons page' pages ih =>
    obtain ⟨merged, hmerged, hrun⟩ := bind_eq_ok_iff.1 hrun
    obtain ⟨next, -, hrun⟩ := bind_eq_ok_iff.1 hrun
    cases hfind : r.find? next with
    | none =>
      rw [hfind] at hrun
      cases hrun
    | some j =>
      rw [hfind] at hrun
      obtain ⟨rest, hrest, hrun⟩ := bind_eq_ok_iff.1 hrun
      cases hrun
      intro w hw
      rcases List.mem_cons.1 hw with rfl | hw
      · exact hmerge _ merged page List.mem_cons_self (hstored i) hmerged
      · exact ih (fun stored merged p hp => hmerge stored merged p (List.mem_cons_of_mem _ hp)) hrest w hw

theorem mergeInto_moves {records : List Record} {key : ChunkKey} {i : Nat} {answer : Except StoreError Unit}
    (hA : FoldKeeps A records) (hstored : ∀ i, A (r.page i))
    (hrun : mergeInto records key i r = .ok (q, answer)) : Moves A r q := by
  unfold mergeInto at hrun
  cases hpages : pagesOf records with
  | nil =>
    rw [hpages] at hrun
    cases hrun
    exact .refl r
  | cons page pages =>
    rw [hpages] at hrun
    dsimp only at hrun
    cases hmerged : r.mergedPages page pages key i with
    | ok writes =>
      rw [hmerged] at hrun
      cases hrun
      refine writePages_moves r (mergedPages_allowed hstored (fun stored merged p hp => ?_) hmerged)
      intro hA' hmerge
      exact hA.merged stored p merged hA' (hpages ▸ hp) hmerge
    | error stop =>
      rw [hmerged] at hrun
      cases stop with
      | error e =>
        cases hrun
        exact .refl r
      | fault f => cases hrun

theorem fold_moves {o : Owner} {id : Identity} {records : List Record} {access : Access (Except StoreError Unit)}
    (hA : FoldKeeps A records) (hstored : ∀ i, A (r.page i)) (hrun : r.fold o id records = .ok access) :
    Moves A r access.region := by
  unfold fold at hrun
  cases hfind : r.find? (.first id) with
  | some i =>
    rw [hfind] at hrun
    refine withChunk_moves hrun fun q answer hbody => mergeInto_moves hA (fun j => ?_) hbody
    rw [page_relock]
    exact hstored j
  | none =>
    rw [hfind] at hrun
    obtain ⟨⟨q, answer⟩, hcreate, hrun⟩ := bind_eq_ok_iff.1 hrun
    cases hrun
    exact createChunks_moves hA.new rfl hcreate

theorem findChunk_moves {o : Owner} {id : Identity} {number : ChunkNumber} {access : Access (Option Chunk)}
    (hrun : r.findChunk o id number = .ok access) : Moves A r access.region := by
  unfold findChunk at hrun
  dsimp only at hrun
  split at hrun
  · cases hrun
    exact .refl r
  · split at hrun
    · cases hrun
      exact .refl r
    · refine withChunk_moves hrun fun q answer hbody => ?_
      cases hbody
      exact .refl _

theorem readRecords_moves {o : Owner} {id : Identity} {access : Access (Option (List Record))}
    (hrun : r.readRecords o id = .ok access) : Moves A r access.region := by
  unfold readRecords at hrun
  split at hrun
  · cases hrun
    exact .refl r
  · refine withChunk_moves hrun fun q answer hbody => ?_
    obtain ⟨records, -, hbody⟩ := bind_eq_ok_iff.1 hbody
    cases hbody
    exact .refl _

theorem removeChain_moves {fuel : Nat} {key : ChunkKey} {removed n : Nat}
    (hrun : removeChain fuel key removed r = .ok (q, n)) : Moves A r q := by
  induction fuel generalizing r key removed with
  | zero =>
    cases hrun
    exact .refl _
  | succ fuel ih =>
    rw [removeChain] at hrun
    split at hrun
    · cases hrun
      exact .refl _
    · obtain ⟨next, -, hrun⟩ := bind_eq_ok_iff.1 hrun
      exact .trans (.remove r _) (ih hrun)

theorem reset_moves {scope : ResetScope} {n : Nat} (hrun : r.reset scope = .ok (q, n)) : Moves A r q := by
  cases scope with
  | all =>
    cases hrun
    exact .clear r
  | incarnation id => exact removeChain_moves hrun
  | unit key =>
    cases hrun
    exact removeAll_moves r _

/-! ### Call statistics -/

theorem recordCall_moves {o : Owner} {key : UnitKey} {elapsed : Counter} {isError : Bool}
    {access : Access (Except StoreError Unit)} (hrun : r.recordCall o key elapsed isError = .ok access) :
    Moves A r access.region := by
  unfold recordCall at hrun
  split at hrun
  · refine withUnit_moves hrun fun q answer hbody => ?_
    obtain ⟨stats, -, hbody⟩ := bind_eq_ok_iff.1 hbody
    cases hbody
    exact .writeStats _ _ _
  · rename_i habsent
    cases hout : r.insertUnit key with
    | mk r₁ out =>
      rw [hout] at hrun
      cases out with
      | error e =>
        cases hrun
        have hsame : r₁ = r := by
          unfold insertUnit at hout
          split at hout
          · cases hout
          · cases hout
            rfl
          · cases hout
        rw [hsame]
        exact .refl r
      | ok i =>
        obtain ⟨stats, -, hrun⟩ := bind_eq_ok_iff.1 hrun
        cases hrun
        exact .trans (.insertUnit hout) (.writeStats r₁ i stats)

theorem summary?_moves {o : Owner} {key : UnitKey} {access : Access (Option UnitSummary)}
    (hrun : r.summary? o key = .ok access) : Moves A r access.region := by
  unfold summary? at hrun
  split at hrun
  · cases hrun
    exact .refl r
  · refine withUnit_moves hrun fun q answer hbody => ?_
    cases hbody
    exact .refl _

theorem summariesAt_moves {o : Owner} {slots : List Nat} {access : Access (List UnitSummary)}
    (hrun : summariesAt o slots r = .ok access) : Moves A r access.region := by
  induction slots generalizing r access with
  | nil =>
    cases hrun
    exact .refl r
  | cons i slots ih =>
    obtain ⟨here, hhere, hrun⟩ := bind_eq_ok_iff.1 hrun
    obtain ⟨after, hafter, hrun⟩ := bind_eq_ok_iff.1 hrun
    obtain ⟨rest, hrest, hafter⟩ := bind_eq_ok_iff.1 hafter
    cases hafter
    cases hrun
    have hbehind : Moves A here.region rest.region := ih hrest
    refine .trans (withUnit_moves hhere fun q answer hbody => ?_) hbehind
    cases hbody
    exact .refl _

theorem summaries_moves {o : Owner} {access : Access (List UnitSummary)} (hrun : r.summaries o = .ok access) :
    Moves A r access.region := by
  obtain ⟨found, hfound, hrun⟩ := bind_eq_ok_iff.1 hrun
  cases hrun
  have hmoves : Moves A r found.region := summariesAt_moves hfound
  exact hmoves

theorem summariesOf_moves {o : Owner} {db : UInt32} {access : Access (List UnitSummary)}
    (hrun : r.summariesOf o db = .ok access) : Moves A r access.region := by
  obtain ⟨found, hfound, hrun⟩ := bind_eq_ok_iff.1 hrun
  cases hrun
  have hmoves : Moves A r found.region := summaries_moves hfound
  exact hmoves

theorem resetStats_moves (r : Region) (unit : Option UnitKey) : Moves A r (r.resetStats unit).1 := by
  cases unit with
  | none => exact .clearUnits r
  | some key =>
    unfold resetStats
    dsimp only
    cases r.findUnit? key with
    | none => exact .refl r
    | some i => exact .removeUnit r i

/-! ### What stays -/

/-- What no operation changes: all of the header but the counts, the number of slots, and the lock words that it
does not set to 0. -/
structure Frame (r q : Region) : Prop where
  header : ∃ used unitsUsed, q.header = { r.header with used := used, unitsUsed := unitsUsed }
  layout : q.layout = r.layout
  chunks : r.chunks.FreedFrom q.chunks
  units : r.units.FreedFrom q.units

theorem Frame.refl (r : Region) : Frame r r where
  header := ⟨_, _, rfl⟩
  layout := rfl
  chunks := Table.freedFrom_refl _
  units := Table.freedFrom_refl _

theorem Frame.trans (h : Frame r r') (h' : Frame r' q) : Frame r q where
  header := by
    obtain ⟨_, _, hr⟩ := h.header
    obtain ⟨used, unitsUsed, hq⟩ := h'.header
    exact ⟨used, unitsUsed, by rw [hq, hr]⟩
  layout := h'.layout.trans h.layout
  chunks := h.chunks.trans h'.chunks
  units := h.units.trans h'.units

/-- A change of the chunk slots. -/
theorem frame_chunks {t : Table ChunkKey Page} {used : UInt64} (hsize : t.size = r.chunks.size)
    (h : r.chunks.FreedFrom t) : Frame r { r with header := { r.header with used := used }, chunks := t } where
  header := ⟨_, _, rfl⟩
  layout := by
    show (⟨t.size, _⟩ : Layout) = ⟨r.chunks.size, _⟩
    rw [hsize]
    rfl
  chunks := h
  units := Table.freedFrom_refl _

/-- A change of the unit slots. -/
theorem frame_units {t : Table UnitKey CallStats} {unitsUsed : UInt64} (hsize : t.size = r.units.size)
    (h : r.units.FreedFrom t) :
    Frame r { r with header := { r.header with unitsUsed := unitsUsed }, units := t } where
  header := ⟨_, _, rfl⟩
  layout := by
    show (⟨_, t.size⟩ : Layout) = ⟨_, r.units.size⟩
    rw [hsize]
    rfl
  chunks := Table.freedFrom_refl _
  units := h

/-- Whatever an operation does, it stays in the frame. -/
theorem Moves.frame (h : Moves A r q) : Frame r q := by
  induction h with
  | refl r => exact .refl r
  | trans _ _ ih ih' => exact ih.trans ih'
  | insert hkey h =>
    unfold Region.insert at h
    split at h
    · cases h
    · cases h
    · cases h
      exact frame_chunks (Table.size_place ..) (Table.freedFrom_place _ _ _ _)
  | remove r i =>
    unfold Region.remove
    split_ifs
    · exact frame_chunks (Table.size_remove ..) (Table.freedFrom_remove _ _)
    · exact .refl r
  | clear r => exact frame_chunks (Table.size_clear ..) (Table.freedFrom_clear _)
  | writePage r i _ => exact frame_chunks (Table.size_write ..) (Table.freedFrom_modify _ i fun _ => rfl)
  | insertUnit h =>
    unfold Region.insertUnit at h
    split at h
    · cases h
      exact .refl _
    · cases h
    · cases h
      exact frame_units (Table.size_place ..) (Table.freedFrom_place _ _ _ _)
  | removeUnit r i =>
    unfold Region.removeUnit
    split_ifs
    · exact frame_units (Table.size_remove ..) (Table.freedFrom_remove _ _)
    · exact .refl r
  | clearUnits r => exact frame_units (Table.size_clear ..) (Table.freedFrom_clear _)
  | writeStats r i _ => exact frame_units (Table.size_write ..) (Table.freedFrom_modify _ i fun _ => rfl)
  | @heldChunk r q i word _ ih =>
    exact ⟨ih.header, by rw [layout_relock, ih.layout, layout_relock], ih.chunks.held, ih.units⟩
  | @heldUnit r q i word _ ih =>
    exact ⟨ih.header, by rw [layout_relockUnit, ih.layout, layout_relockUnit], ih.chunks, ih.units.held⟩

/-! ### What chunk slots hold -/

/-- A chunk slot with a page that has a property, and with a key as operations make it. -/
def SlotHolds (A : List Record → Prop) (s : Slot ChunkKey Page) : Prop := s.key.filler = 0 ∧ A s.value.records

/-- Operations keep what chunk slots hold. -/
theorem Moves.slots (h : Moves A r q) (hunused : A Page.unused.records) (hr : ∀ i, SlotHolds A (r.chunks.get i)) :
    ∀ i, SlotHolds A (q.chunks.get i) := by
  induction h with
  | refl r => exact hr
  | trans _ _ ih ih' => exact ih' (ih hr)
  | @insert r r' key i hkey h =>
    unfold Region.insert at h
    split at h
    · cases h
    · cases h
    · cases h
      exact Table.forall_get_modify hr i (f := fun _ => ⟨Slot.usedWord, 0, key, Page.unused⟩)
        fun _ _ => ⟨hkey, hunused⟩
  | remove r i =>
    unfold Region.remove Table.remove
    split_ifs
    · exact Table.forall_get_modify hr i fun _ hs => hs
    · exact hr
  | clear r =>
    intro j
    show SlotHolds A (r.chunks.clear.get j)
    rw [Table.get_clear]
    exact hr j
  | writePage r i hpage => exact Table.forall_get_modify hr i fun _ hs => ⟨hs.1, hpage⟩
  | insertUnit h =>
    unfold Region.insertUnit at h
    split at h
    · cases h
      exact hr
    · cases h
    · cases h
      exact hr
  | removeUnit r i =>
    unfold Region.removeUnit
    split_ifs
    · exact hr
    · exact hr
  | clearUnits r => exact hr
  | writeStats r i _ => exact hr
  | heldChunk i word _ ih =>
    have hlocked := Table.forall_get_modify hr i (f := fun s => { s with mutex := word }) fun _ hs => hs
    exact Table.forall_get_modify (ih hlocked) i fun _ hs => hs
  | heldUnit i word _ ih => exact ih hr

end Region

end ProcProfile
