import Mathlib.Tactic
import ProcProfile.Proofs.Region.ChunkMap

/-!
# Folding into an incarnation without chunks

Folds into two incarnations with the same pages answer alike and leave them with the same pages, in whatever slots
their chunks are and whatever else their regions hold.  So an incarnation whose chunks were removed is folded like
one that never had any.

* `StoreError.about`, `mergedIn_about`: the same error about another procedure;
* `Alike`, `putPages_alike`: two incarnations with the same pages;
* `Twins`, `FoldsAlike`, `Twins.foldsAlike`, `foldsAlike_new`: one fold into each of them;
* `foldReads`, `foldReads_new`: folds one after another, with the profile read after each.
-/

namespace ProcProfile

/-- An error with another procedure named in it. -/
def StoreError.about (unitId : UInt32) : StoreError → StoreError
  | .duplicateChunk _ chunk => .duplicateChunk unitId chunk
  | .missingChunk _ chunk => .missingChunk unitId chunk
  | .unexpectedChunk _ chunk => .unexpectedChunk unitId chunk
  | e => e

/-- A reason to stop with another procedure named in it. -/
def Stop.about (unitId : UInt32) : Stop StoreError → Stop StoreError
  | .error e => .error (e.about unitId)
  | .fault f => .fault f

namespace Region

variable {r r' : Region} {id id' : Identity}

/-! ### Incarnations with the same pages -/

/-- Two incarnations, each in its region, that have the same pages. -/
def Alike (r : Region) (id : Identity) (r' : Region) (id' : Identity) : Prop :=
  ∀ m < 2 ^ 15, r'.chunk? (.nth id' m) = r.chunk? (.nth id m)

/-- No procedure is named if two records do not fit. -/
theorem about_of_mergePage (unitId : UInt32) {stored page : List Record} {s : Stop StoreError}
    (h : mergePage stored page = .error s) : s.about unitId = s := by
  induction stored generalizing page with
  | nil => cases h
  | cons x rest ih =>
    cases page with
    | nil =>
      rw [mergePage] at h
      split_ifs at h
      cases h
      rfl
    | cons y page =>
      rw [mergePage] at h
      split_ifs at h
      · cases h
        rfl
      · rcases bind_eq_error_iff.1 h with hmerge | ⟨merged, -, h⟩
        · cases hxy : x.merge y with
          | ok z =>
            rw [hxy] at hmerge
            cases hmerge
          | error f =>
            rw [hxy] at hmerge
            cases hmerge
            rfl
        · rcases bind_eq_error_iff.1 h with hrest | ⟨rest', -, h⟩
          · exact ih hrest
          · cases h

theorem mergedIn_about {a a' : ChunkMap} (h : ∀ m < 2 ^ 15, a' (.nth id' m) = a (.nth id m))
    (stored page : List Record) (pages : List (List Record)) {m : Nat} (hm : m < 2 ^ 15) :
    mergedIn a' stored page pages (.nth id' m) =
      (mergedIn a stored page pages (.nth id m)).mapError (Stop.about id'.unitId) := by
  induction pages generalizing stored page m with
  | nil =>
    rw [mergedIn, mergedIn, ChunkKey.next_nth id' hm, ChunkKey.next_nth id hm]
    cases hmerged : mergePage stored page with
    | error s =>
      change Except.error s = Except.error (Stop.about id'.unitId s)
      rw [about_of_mergePage _ hmerged]
    | ok merged =>
      by_cases hlast : m + 1 < 2 ^ 15
      · rw [if_pos hlast, if_pos hlast]
        dsimp only [bind, Except.bind, Stop.ofFault_ok]
        rw [h (m + 1) hlast]
        cases a (.nth id (m + 1)) <;> rfl
      · rw [if_neg hlast, if_neg hlast]
        rfl
  | cons page' pages ih =>
    rw [mergedIn, mergedIn, ChunkKey.next_nth id' hm, ChunkKey.next_nth id hm]
    cases hmerged : mergePage stored page with
    | error s =>
      change Except.error s = Except.error (Stop.about id'.unitId s)
      rw [about_of_mergePage _ hmerged]
    | ok merged =>
      by_cases hlast : m + 1 < 2 ^ 15
      · rw [if_pos hlast, if_pos hlast]
        dsimp only [bind, Except.bind, Stop.ofFault_ok]
        rw [h (m + 1) hlast]
        cases a (.nth id (m + 1)) with
        | none => rfl
        | some stored' =>
          dsimp only
          rw [ih stored' page' hlast]
          cases mergedIn a stored' page' pages (.nth id (m + 1)) <;> rfl
      · rw [if_neg hlast, if_neg hlast]
        rfl

/-- The same pages put into both maps leave the incarnations with the same pages. -/
theorem putPages_alike {a a' : ChunkMap} (h : ∀ m < 2 ^ 15, a' (.nth id' m) = a (.nth id m))
    {pages : List (List Record)} {k : Nat} (hk : k + pages.length ≤ 2 ^ 15) :
    ∀ m < 2 ^ 15, putPages a' id' k pages (.nth id' m) = putPages a id k pages (.nth id m) := by
  induction pages generalizing a a' k with
  | nil => exact h
  | cons page pages ih =>
    rw [List.length_cons] at hk
    rw [putPages, putPages]
    refine ih (fun m hm => ?_) (by omega)
    by_cases hmk : m = k
    · rw [hmk, Function.update_self, Function.update_self]
    · have hne : ∀ id : Identity, ChunkKey.nth id m ≠ .nth id k := fun id he =>
        hmk ((ChunkKey.nth_inj hm (by omega)).1 he).2
      rw [Function.update_of_ne (hne id'), Function.update_of_ne (hne id), h m hm]

theorem putPages_first_ne_none {a : ChunkMap} {pages : List (List Record)} (hpos : 0 < pages.length)
    (hlength : 1 + pages.length ≤ 2 ^ 15) : putPages a id 1 pages (.first id) ≠ none := by
  have hput : putPages a id 1 pages (.nth id (1 + 0)) = pages[0]? := putPages_nth hlength hpos
  rw [ChunkKey.first_eq_nth, hput, List.getElem?_eq_getElem hpos]
  exact Option.some_ne_none _

/-! ### One fold -/

/-- Two stored profiles with the same pages. -/
structure Twins (r : Region) (id : Identity) (r' : Region) (id' : Identity) : Prop where
  settled : r.Settled
  settled' : r'.Settled
  alike : Alike r id r' id'
  stored : r.chunk? (.first id) ≠ none

/-- Two folds that both fault alike, or answer alike and leave stored profiles with the same pages. -/
def FoldsAlike (id id' : Identity) (x x' : Except Fault (Access (Except StoreError Unit))) : Prop :=
  (∃ f, x = .error f ∧ x' = .error f) ∨
  ∃ access access', x = .ok access ∧ x' = .ok access' ∧
    access'.answer = access.answer.mapError (StoreError.about id'.unitId) ∧
    Twins access.region id access'.region id'

theorem Same.alike {q q' : Region} (h : r.Settled) (h' : r'.Settled) (hview : Alike r id r' id')
    (hq : Same r q) (hq' : Same r' q') : Alike q id q' id' := by
  intro m hm
  rw [hq'.chunk?_eq h'.sound, hq.chunk?_eq h.sound, hview m hm]

theorem Twins.of_same {q q' : Region} (h : Twins r id r' id') (hq : Same r q) (hq' : Same r' q') :
    Twins q id q' id' :=
  ⟨hq.settled, hq'.settled, hq.alike h.settled h.settled' h.alike hq', by
    rw [hq.chunk?_eq h.settled.sound]
    exact h.stored⟩

theorem length_mergedIn {a : ChunkMap} {stored page : List Record} {pages : List (List Record)} {m : Nat}
    (hm : m < 2 ^ 15) {merged : List (List Record)}
    (hrun : mergedIn a stored page pages (.nth id m) = .ok merged) :
    merged.length = pages.length + 1 ∧ m + merged.length < 2 ^ 15 := by
  induction pages generalizing stored page m merged with
  | nil =>
    rw [mergedIn, ChunkKey.next_nth id hm] at hrun
    obtain ⟨first, -, hrun⟩ := bind_eq_ok_iff.1 hrun
    obtain ⟨next, hnext, hrun⟩ := bind_eq_ok_iff.1 hrun
    split_ifs at hnext hrun with hlast
    · cases hrun
      exact ⟨rfl, hlast⟩
    · cases hnext
  | cons page' pages ih =>
    rw [mergedIn, ChunkKey.next_nth id hm] at hrun
    obtain ⟨first, -, hrun⟩ := bind_eq_ok_iff.1 hrun
    obtain ⟨next, hnext, hrun⟩ := bind_eq_ok_iff.1 hrun
    split_ifs at hnext with hlast
    · cases hnext
      cases ha : a (.nth id (m + 1)) with
      | none =>
        rw [ha] at hrun
        cases hrun
      | some stored' =>
        rw [ha] at hrun
        obtain ⟨rest, hrest, hrun⟩ := bind_eq_ok_iff.1 hrun
        cases hrun
        obtain ⟨hlength, hbound⟩ := ih hlast hrest
        rw [List.length_cons, List.length_cons, hlength]
        omega
    · cases hnext

/-- Folds of one call into stored profiles with the same pages. -/
theorem Twins.foldsAlike (h : Twins r id r' id') (o o' : Owner) (records : List Record) :
    FoldsAlike id id' (r.fold o id records) (r'.fold o' id' records) := by
  obtain ⟨stored, hfirst⟩ := Option.ne_none_iff_exists'.1 h.stored
  have hone : 1 < 2 ^ 15 := by norm_num
  have hfirst' : r'.chunk? (.first id') = some stored := by
    rw [ChunkKey.first_eq_nth, h.alike 1 hone, ← ChunkKey.first_eq_nth, hfirst]
  obtain ⟨hok, herror, hfault⟩ := fold_stored h.settled hfirst o records
  obtain ⟨hok', herror', hfault'⟩ := fold_stored h.settled' hfirst' o' records
  have habout : mergedProfile r'.chunk? id' stored records =
      (mergedProfile r.chunk? id stored records).mapError (Stop.about id'.unitId) :=
    mergedIn_about h.alike _ _ _ hone
  cases hmerged : mergedProfile r.chunk? id stored records with
  | ok pages =>
    rw [hmerged] at habout
    obtain ⟨hlength, hbound⟩ := length_mergedIn hone hmerged
    obtain ⟨q, hfold, hrw, hview⟩ := hok pages hmerged
    obtain ⟨q', hfold', hrw', hview'⟩ := hok' pages habout
    refine .inr ⟨_, _, hfold, hfold', rfl, hrw.settled h.settled, hrw'.settled h.settled', ?_, ?_⟩
    · change Alike q id q' id'
      unfold Alike
      rw [hview, hview']
      exact putPages_alike h.alike (by omega)
    · change q.chunk? (.first id) ≠ none
      rw [hview]
      exact putPages_first_ne_none (by omega) (by omega)
  | error s =>
    rw [hmerged] at habout
    cases s with
    | fault f => exact .inl ⟨f, hfault f hmerged, hfault' f habout⟩
    | error e =>
      obtain ⟨q, hfold, hsame⟩ := herror e hmerged
      obtain ⟨q', hfold', hsame'⟩ := herror' _ habout
      exact .inr ⟨_, _, hfold, hfold', rfl, h.of_same hsame hsame'⟩

/-- The first fold into an incarnation without chunks puts its pages if there is room for them, unless they pass the
last chunk number. -/
theorem fold_new (h : r.Settled) (hnew : ∀ m < 2 ^ 15, r.chunk? (.nth id m) = none) {records : List Record}
    (hroom : chunksNeeded records.length ≤ r.free) (o : Owner) :
    (r.fold o id records = .error .addOverflow ∧ 2 ^ 15 ≤ 1 + chunksNeeded records.length) ∨
    ∃ q, r.fold o id records = .ok (.pure q (.ok ())) ∧ q.Settled ∧
      q.chunk? = putPages r.chunk? id 1 ((pagesOf records).map fillPage) ∧
      1 + chunksNeeded records.length < 2 ^ 15 := by
  rcases fold_absent h (fun m _ hm => hnew m hm) o records with ⟨hrun, hlength, -⟩ | ⟨q, -, -, hfull, -⟩ |
    ⟨q, created, hrun, hadd, hview, -, hlength⟩
  · exact .inl ⟨hrun, hlength⟩
  · omega
  · exact .inr ⟨q, hrun, hadd.settled, hview, hlength⟩

/-- First folds of one call into two incarnations without chunks. -/
theorem foldsAlike_new (h : r.Settled) (h' : r'.Settled) (hnew : ∀ m < 2 ^ 15, r.chunk? (.nth id m) = none)
    (hnew' : ∀ m < 2 ^ 15, r'.chunk? (.nth id' m) = none) {records : List Record}
    (hroom : chunksNeeded records.length ≤ r.free) (hroom' : chunksNeeded records.length ≤ r'.free)
    (o o' : Owner) : FoldsAlike id id' (r.fold o id records) (r'.fold o' id' records) := by
  have hpos := chunksNeeded_pos records.length
  have hpages : ((pagesOf records).map fillPage).length = chunksNeeded records.length := by
    rw [List.length_map, length_pagesOf]
  rcases fold_new h hnew hroom o with ⟨hrun, hlast⟩ | ⟨q, hrun, hq, hview, hlast⟩
  · rcases fold_new h' hnew' hroom' o' with ⟨hrun', -⟩ | ⟨q', -, -, -, hlast'⟩
    · exact .inl ⟨_, hrun, hrun'⟩
    · omega
  · rcases fold_new h' hnew' hroom' o' with ⟨-, hlast'⟩ | ⟨q', hrun', hq', hview', -⟩
    · omega
    · refine .inr ⟨_, _, hrun, hrun', rfl, hq, hq', ?_, ?_⟩
      · change Alike q id q' id'
        unfold Alike
        rw [hview, hview']
        exact putPages_alike (fun m hm => by rw [hnew' m hm, hnew m hm]) (by omega)
      · change q.chunk? (.first id) ≠ none
        rw [hview]
        exact putPages_first_ne_none (by omega) (by omega)

/-! ### Folds one after another -/

/-- What folds of some calls answer, and what is read after each of them. -/
def foldReads (o : Owner) (id : Identity) :
    (calls : List (List Record)) → (r : Region) →
      Except Fault (List (Except StoreError Unit × Option (List Record)))
  | [], _ => .ok []
  | records :: calls, r => do
    let folded ← r.fold o id records
    let read ← folded.region.readRecords o id
    let later ← foldReads o id calls read.region
    return (folded.answer, read.answer) :: later

/-- The same answers with another procedure named in the errors. -/
def answersAbout (unitId : UInt32) (answers : List (Except StoreError Unit × Option (List Record))) :
    List (Except StoreError Unit × Option (List Record)) :=
  answers.map fun answer => (answer.1.mapError (StoreError.about unitId), answer.2)

/-- Profiles with the same pages are read alike, and reading keeps them so. -/
theorem Twins.reads (h : Twins r id r' id') (o o' : Owner) :
    (∃ f, r.readRecords o id = .error f ∧ r'.readRecords o' id' = .error f) ∨
    ∃ access access', r.readRecords o id = .ok access ∧ r'.readRecords o' id' = .ok access' ∧
      access'.answer = access.answer ∧ Twins access.region id access'.region id' := by
  have hread := reads_readRecords h.settled o id
  have hread' := reads_readRecords h.settled' o' id'
  have hanswer : Access.answer <$> r'.readRecords o' id' = Access.answer <$> r.readRecords o id := by
    rw [hread'.answer_eq, hread.answer_eq, storedRecords_congr h.alike]
  cases hrun : r.readRecords o id with
  | error f =>
    cases hrun' : r'.readRecords o' id' with
    | error f' =>
      rw [hrun, hrun'] at hanswer
      cases hanswer
      exact .inl ⟨f, rfl, rfl⟩
    | ok access' =>
      rw [hrun, hrun'] at hanswer
      cases hanswer
  | ok access =>
    cases hrun' : r'.readRecords o' id' with
    | error f' =>
      rw [hrun, hrun'] at hanswer
      cases hanswer
    | ok access' =>
      rw [hrun, hrun'] at hanswer
      exact .inr ⟨access, access', rfl, rfl, Except.ok.inj hanswer,
        h.of_same (hread.same access hrun) (hread'.same access' hrun')⟩

/-- One fold with the profile read after it, and then what comes later. -/
theorem FoldsAlike.foldReads {o o' : Owner} {records : List Record} {calls : List (List Record)}
    (h : FoldsAlike id id' (r.fold o id records) (r'.fold o' id' records))
    (hlater : ∀ q q', Twins q id q' id' →
      foldReads o' id' calls q' = answersAbout id'.unitId <$> foldReads o id calls q) :
    foldReads o' id' (records :: calls) r' = answersAbout id'.unitId <$> foldReads o id (records :: calls) r := by
  rw [Region.foldReads, Region.foldReads]
  rcases h with ⟨f, hrun, hrun'⟩ | ⟨folded, folded', hrun, hrun', hanswer, htwins⟩
  · rw [hrun, hrun']
    rfl
  · rw [hrun, hrun']
    dsimp only [bind, Except.bind]
    rcases htwins.reads o o' with ⟨f, hread, hread'⟩ | ⟨read, read', hread, hread', hrecords, htwins'⟩
    · rw [hread, hread']
      rfl
    · rw [hread, hread']
      dsimp only
      rw [hlater _ _ htwins', hanswer, hrecords]
      cases Region.foldReads o id calls read.region <;> rfl

theorem Twins.foldReads (h : Twins r id r' id') (o o' : Owner) (calls : List (List Record)) :
    foldReads o' id' calls r' = answersAbout id'.unitId <$> foldReads o id calls r := by
  induction calls generalizing r r' with
  | nil => rfl
  | cons records calls ih => exact (h.foldsAlike o o' records).foldReads fun _ _ htwins => ih htwins

/-- Folds into two incarnations without chunks, while there is room for the chunks that the first one makes. -/
theorem foldReads_new (h : r.Settled) (h' : r'.Settled) (hnew : ∀ m < 2 ^ 15, r.chunk? (.nth id m) = none)
    (hnew' : ∀ m < 2 ^ 15, r'.chunk? (.nth id' m) = none) {records : List Record}
    (hroom : chunksNeeded records.length ≤ r.free) (hroom' : chunksNeeded records.length ≤ r'.free)
    (o o' : Owner) (calls : List (List Record)) :
    foldReads o' id' (records :: calls) r' = answersAbout id'.unitId <$> foldReads o id (records :: calls) r :=
  (foldsAlike_new h h' hnew hnew' hroom hroom' o o').foldReads fun _ _ htwins => htwins.foldReads o o' calls

end Region

end ProcProfile
