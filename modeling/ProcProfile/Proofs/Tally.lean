import Mathlib.Data.Finset.Card
import Mathlib.Data.Finset.Range
import Mathlib.Data.List.TakeWhile
import Mathlib.Tactic
import ProcProfile.Proofs.Fault
import ProcProfile.Tally

/-!
# What a tally counts

A statement that begins is counted once: when it ends, when it begins again, when a statement around it ends,
or when the call ends.  Until then it runs.  So the executions counted so far and the running one together
are as many as the begins, whatever ends were left out.

* `Tally.begun`, `Tally.clean`: the executions begun so far, and those that ended without an error;
* `Tally.Tracked`: no running statement is forgotten;
* `Tally.begin_eq_ok`, `Tally.finish_eq_ok`, `Tally.closeOpen_eq_ok`: each operation in these terms.
-/

namespace ProcProfile

/-- Which statement a timer is for. -/
def Timer.site (t : Timer) : Int32 × Option UInt64 := (t.line, t.fingerprint)

theorem Timer.stop_eq_ok {t t' : Timer} {startedAt now rows : Counter} {isError : Bool}
    (h : t.stop startedAt now rows isError = .ok t') :
    t'.site = t.site ∧ t'.startedAt = none ∧ t'.execCount.toNat = t.execCount.toNat + 1 ∧
      t'.errorCount.toNat = t.errorCount.toNat + isError.toNat := by
  unfold stop at h
  obtain ⟨elapsed, -, h⟩ := bind_eq_ok_iff.1 h
  obtain ⟨rows', -, h⟩ := bind_eq_ok_iff.1 h
  obtain ⟨exec, hexec, h⟩ := bind_eq_ok_iff.1 h
  dsimp only at h
  cases isError with
  | true =>
    rw [if_pos rfl] at h
    obtain ⟨err, herr, h⟩ := bind_eq_ok_iff.1 h
    cases h
    exact ⟨rfl, rfl, Counter.add_eq_ok.1 hexec, Counter.add_eq_ok.1 herr⟩
  | false =>
    rw [if_neg Bool.false_ne_true] at h
    cases h
    exact ⟨rfl, rfl, Counter.add_eq_ok.1 hexec, rfl⟩

namespace Tally

/-- The executions of a statement that are counted. -/
def exec (t : Tally) (i : Nat) : Nat := t.timers[i]?.elim 0 fun timer => timer.execCount.toNat

/-- Those of them that ended with an error. -/
def err (t : Tally) (i : Nat) : Nat := t.timers[i]?.elim 0 fun timer => timer.errorCount.toNat

/-- The executions of a statement that began: those that are counted and the one that runs. -/
def begun (t : Tally) (i : Nat) : Nat := t.exec i + (t.isOpen i).toNat

/-- The executions of a statement that ended without an error. -/
def clean (t : Tally) (i : Nat) : Int := (t.exec i : Int) - t.err i

/-- The statements of the timers, in natural order. -/
def sites (t : Tally) : List (Int32 × Option UInt64) := t.timers.toList.map Timer.site

theorem length_sites (t : Tally) : t.sites.length = t.size := by
  simp [sites, size]

theorem lt_size_of_isOpen {t : Tally} {i : Nat} (h : t.isOpen i = true) : i < t.size := by
  unfold isOpen at h
  obtain ⟨timer, htimer, -⟩ := (Option.any_eq_true ..).1 h
  exact (Array.getElem?_eq_some_iff.1 htimer).1

theorem getElem?_sites (t : Tally) (i : Nat) : t.sites[i]? = t.timers[i]?.map Timer.site := by
  simp [sites]

/-! ### Changing one timer -/

section Changed

variable {t t' : Tally} {id : Nat} {timer timer' : Timer}

/-- Two tallies whose timers differ only in that of one statement. -/
structure Changed (t : Tally) (id : Nat) (timer' : Timer) (t' : Tally) : Prop where
  getElem? : ∀ i, t'.timers[i]? = if i = id then some timer' else t.timers[i]?

theorem Changed.exec_eq (h : Changed t id timer' t') (i : Nat) :
    t'.exec i = if i = id then timer'.execCount.toNat else t.exec i := by
  unfold exec
  rw [h.getElem?]
  split_ifs <;> rfl

theorem Changed.err_eq (h : Changed t id timer' t') (i : Nat) :
    t'.err i = if i = id then timer'.errorCount.toNat else t.err i := by
  unfold err
  rw [h.getElem?]
  split_ifs <;> rfl

theorem Changed.isOpen_eq (h : Changed t id timer' t') (i : Nat) :
    t'.isOpen i = if i = id then timer'.isOpen else t.isOpen i := by
  unfold isOpen
  rw [h.getElem?]
  split_ifs <;> rfl

theorem Changed.sites_eq (h : Changed t id timer' t') (htimer : t.timers[id]? = some timer)
    (hsite : timer'.site = timer.site) : t'.sites = t.sites := by
  refine List.ext_getElem? fun i => ?_
  rw [getElem?_sites, getElem?_sites, h.getElem?]
  split_ifs with hi
  · rw [hi, htimer, Option.map_some, Option.map_some, hsite]
  · rfl

theorem Changed.exec_same (h : Changed t id timer' t') (htimer : t.timers[id]? = some timer)
    (hexec : timer'.execCount = timer.execCount) (i : Nat) : t'.exec i = t.exec i := by
  rw [h.exec_eq]
  split_ifs with hi
  · rw [hi, hexec, exec, htimer, Option.elim_some]
  · rfl

theorem Changed.err_same (h : Changed t id timer' t') (htimer : t.timers[id]? = some timer)
    (herr : timer'.errorCount = timer.errorCount) (i : Nat) : t'.err i = t.err i := by
  rw [h.err_eq]
  split_ifs with hi
  · rw [hi, herr, err, htimer, Option.elim_some]
  · rfl

theorem changed_set (htimer : t.timers[id]? = some timer) (timer' : Timer) :
    Changed t id timer' { t with timers := t.timers.setIfInBounds id timer' } where
  getElem? i := by
    rw [Array.getElem?_setIfInBounds]
    by_cases hi : i = id
    · rw [if_pos hi.symm, if_pos hi, if_pos (Array.getElem?_eq_some_iff.1 htimer).1]
    · rw [if_neg (Ne.symm hi), if_neg hi]

theorem changed_modify (htimer : t.timers[id]? = some timer) (f : Timer → Timer) :
    Changed t id (f timer) { t with timers := t.timers.modify id f } where
  getElem? i := by
    rw [Array.getElem?_modify]
    by_cases hi : i = id
    · rw [if_pos hi.symm, if_pos hi, hi, htimer, Option.map_some]
    · rw [if_neg (Ne.symm hi), if_neg hi]

end Changed

/-! ### Closing statements -/

/-- One statement is closed if it runs.  Its execution is counted, with an error or without one. -/
theorem close_eq_ok {t t' : Tally} {id : Nat} {now rows : Counter} {isError ran : Bool}
    (h : t.close id now rows isError = .ok (t', ran)) :
    t'.stack = t.stack ∧ t'.untracked = t.untracked ∧ t'.sites = t.sites ∧
      (∀ i, t'.isOpen i = true ↔ t.isOpen i = true ∧ i ≠ id) ∧ (∀ i, t'.begun i = t.begun i) ∧
      ∀ i, t'.clean i = t.clean i + if i = id ∧ t.isOpen id = true ∧ isError = false then 1 else 0 := by
  have hidle : t.isOpen id = false → ∀ i, t.isOpen i = true ↔ t.isOpen i = true ∧ i ≠ id := by
    intro hopen i
    exact ⟨fun hi => ⟨hi, fun he => by simp [he, hopen] at hi⟩, And.left⟩
  unfold close at h
  split at h
  · rename_i hnone
    have hopen : t.isOpen id = false := by simp [isOpen, hnone]
    cases h
    exact ⟨rfl, rfl, rfl, hidle hopen, fun _ => rfl, by simp [hopen]⟩
  · rename_i timer htimer
    split at h
    · rename_i hstart
      have hopen : t.isOpen id = false := by simp [isOpen, htimer, Timer.isOpen, hstart]
      cases h
      exact ⟨rfl, rfl, rfl, hidle hopen, fun _ => rfl, by simp [hopen]⟩
    · rename_i startedAt hstart
      have hopen : t.isOpen id = true := by simp [isOpen, htimer, Timer.isOpen, hstart]
      obtain ⟨timer', hstop, h⟩ := bind_eq_ok_iff.1 h
      cases h
      obtain ⟨hsite, hstarted, hexec, herr⟩ := Timer.stop_eq_ok hstop
      have hchanged := changed_set htimer timer'
      have hclosed : timer'.isOpen = false := by simp [Timer.isOpen, hstarted]
      have hexec' : timer'.execCount.toNat = t.exec id + 1 := by simp [hexec, exec, htimer]
      have herr' : timer'.errorCount.toNat = t.err id + isError.toNat := by simp [herr, err, htimer]
      refine ⟨rfl, rfl, hchanged.sites_eq htimer hsite, fun i => ?_, fun i => ?_, fun i => ?_⟩
      · rw [hchanged.isOpen_eq]
        split_ifs with hi
        · simp [hclosed, hi]
        · simp [hi]
      · unfold begun
        rw [hchanged.isOpen_eq, hchanged.exec_eq]
        split_ifs with hi
        · rw [hclosed, hexec', hi, hopen]
          rfl
        · rfl
      · unfold clean
        rw [hchanged.exec_eq, hchanged.err_eq]
        by_cases hi : i = id
        · rw [if_pos hi, if_pos hi, hexec', herr', hi]
          cases isError with
          | true => simp
          | false =>
            simp [hopen]
            ring
        · simp [hi]

/-- A tally in which some running statements were closed as errors. -/
structure Closed (t : Tally) (gone : Nat → Prop) (t' : Tally) : Prop where
  sites : t'.sites = t.sites
  stack : t'.stack = t.stack
  isOpen : ∀ i, t'.isOpen i = true ↔ t.isOpen i = true ∧ ¬ gone i
  begun : ∀ i, t'.begun i = t.begun i
  clean : ∀ i, t'.clean i = t.clean i

theorem closeAll_eq_ok {t t' : Tally} {now : Counter} {ids : List Nat} {n : Nat}
    (h : t.closeAll now ids = .ok (t', n)) : Closed t (· ∈ ids) t' ∧ t'.untracked = t.untracked := by
  induction ids generalizing t n with
  | nil =>
    cases h
    exact ⟨⟨rfl, rfl, fun i => by simp, fun _ => rfl, fun _ => rfl⟩, rfl⟩
  | cons id ids ih =>
    rw [closeAll] at h
    obtain ⟨⟨t₁, ran⟩, hclose, h⟩ := bind_eq_ok_iff.1 h
    obtain ⟨⟨t₂, k⟩, hrest, h⟩ := bind_eq_ok_iff.1 h
    cases h
    obtain ⟨hstack, huntracked, hsites, hopen, hbegun, hclean⟩ := close_eq_ok hclose
    obtain ⟨hclosed, huntracked'⟩ := ih hrest
    refine ⟨⟨hclosed.sites.trans hsites, hclosed.stack.trans hstack, fun i => ?_,
      fun i => (hclosed.begun i).trans (hbegun i), fun i => ?_⟩, huntracked'.trans huntracked⟩
    · rw [hclosed.isOpen, hopen, List.mem_cons, not_or, and_assoc]
    · rw [hclosed.clean, hclean]
      simp

/-- Closing what is not on the stack leaves the statement to be kept and those on the stack. -/
theorem closeUntracked_eq_ok {t t' : Tally} {keep : Option Nat} {now : Counter} {n : Nat}
    (h : t.closeUntracked keep now = .ok (t', n)) :
    Closed t (fun i => some i ≠ keep ∧ i ∉ t.stack) t' ∧ t'.untracked = 0 := by
  obtain ⟨⟨t₁, k⟩, hclose, h⟩ := bind_eq_ok_iff.1 h
  cases h
  obtain ⟨hclosed, -⟩ := closeAll_eq_ok hclose
  refine ⟨⟨hclosed.sites, hclosed.stack, fun i => (hclosed.isOpen i).trans ?_, hclosed.begun,
    hclosed.clean⟩, rfl⟩
  refine and_congr_right fun hi => not_congr ?_
  have hlt := lt_size_of_isOpen hi
  simp [hlt]

/-! ### Running statements -/

/-- As many statements as run and are not on the stack are counted as untracked, or fewer. -/
def Tracked (t : Tally) : Prop :=
  ((Finset.range t.size).filter fun i => t.isOpen i = true ∧ i ∉ t.stack).card ≤ t.untracked

theorem tracked_of_subset {t : Tally} (h : ∀ i, t.isOpen i = true → i ∈ t.stack) : t.Tracked := by
  unfold Tracked
  rw [Finset.filter_false_of_mem fun i _ hi => hi.2 (h i hi.1)]
  exact Nat.zero_le _

theorem Tracked.mem_stack {t : Tally} (h : t.Tracked) (hzero : t.untracked = 0) {i : Nat}
    (hi : t.isOpen i = true) : i ∈ t.stack := by
  unfold Tracked at h
  rw [hzero, Nat.le_zero, Finset.card_eq_zero, Finset.filter_eq_empty_iff] at h
  by_contra hnot
  exact h (Finset.mem_range.2 (lt_size_of_isOpen hi)) ⟨hi, hnot⟩

/-- A statement that is not on the stack ends, and is no longer counted as untracked. -/
theorem Tracked.close_untracked {t t' : Tally} {id : Nat} (h : t.Tracked) (hid : t.isOpen id = true)
    (hnot : id ∉ t.stack) (hsites : t'.sites = t.sites) (hstack : t'.stack = t.stack)
    (huntracked : t'.untracked = t.untracked - 1)
    (hopen : ∀ i, t'.isOpen i = true ↔ t.isOpen i = true ∧ i ≠ id) : t'.Tracked := by
  have hmem : id ∈ (Finset.range t.size).filter fun i => t.isOpen i = true ∧ i ∉ t.stack :=
    Finset.mem_filter.2 ⟨Finset.mem_range.2 (lt_size_of_isOpen hid), hid, hnot⟩
  have herase : ((Finset.range t'.size).filter fun i => t'.isOpen i = true ∧ i ∉ t'.stack) =
      ((Finset.range t.size).filter fun i => t.isOpen i = true ∧ i ∉ t.stack).erase id := by
    ext i
    rw [Finset.mem_filter, Finset.mem_erase, Finset.mem_filter, hopen, hstack, ← length_sites, hsites,
      length_sites]
    tauto
  unfold Tracked at h ⊢
  rw [herase, Finset.card_erase_of_mem hmem, huntracked]
  omega

/-- A statement on the stack splits it into what began later, itself and what began before. -/
theorem mem_stack_cases {stack : List Nat} {id i : Nat} (hid : id ∈ stack) (hi : i ∈ stack) :
    i ∈ stack.takeWhile (· != id) ∨ i = id ∨ i ∈ (stack.dropWhile (· != id)).tail := by
  induction stack with
  | nil => simp at hi
  | cons j stack ih =>
    by_cases hj : j = id
    · subst hj
      simpa using hi
    · have hne : (j != id) = true := by simpa using hj
      simp only [List.takeWhile_cons, List.dropWhile_cons, hne, if_true, List.mem_cons]
      rcases List.mem_cons.1 hi with rfl | hi
      · exact .inl (.inl rfl)
      · exact (ih (List.mem_of_ne_of_mem (Ne.symm hj) hid) hi).imp_left .inr

/-- What ending a statement does before it stops the timer itself: afterwards no other statement runs than
the one that ends and those left on the stack. -/
theorem finish_on_stack {t t' : Tally} {id : Nat} {now rows : Counter} {isError : Bool} (ht : t.Tracked)
    (hmem : id ∈ t.stack) (h : t.finish id now rows isError = .ok t') :
    ∃ (t₁ : Tally) (ran : Bool), t₁.close id now rows isError = .ok (t', ran) ∧ t₁.sites = t.sites ∧
      t₁.isOpen id = t.isOpen id ∧ (∀ i, t₁.isOpen i = true → i = id ∨ i ∈ t₁.stack) ∧
      (∀ i, t₁.begun i = t.begun i) ∧ ∀ i, t₁.clean i = t.clean i := by
  unfold finish at h
  dsimp only at h
  rw [if_pos (by simpa using hmem)] at h
  obtain ⟨⟨t₁, n⟩, horphans, h⟩ := bind_eq_ok_iff.1 h
  obtain ⟨hclosed, huntracked⟩ := closeAll_eq_ok horphans
  have hself : id ∉ t.stack.takeWhile (· != id) := fun hid => by simpa using List.mem_takeWhile_imp hid
  have hopen : t₁.isOpen id = t.isOpen id :=
    Bool.eq_iff_iff.2 ((hclosed.isOpen id).trans (and_iff_left hself))
  split_ifs at h with hpos
  · -- what is not on the stack began after all that is, so that it is closed as well
    obtain ⟨t₂, hmap, h⟩ := bind_eq_ok_iff.1 h
    obtain ⟨⟨t₂', k⟩, hrest, rfl⟩ := map_eq_ok_iff.1 hmap
    obtain ⟨⟨t₃, ran⟩, hclose, h⟩ := bind_eq_ok_iff.1 h
    cases h
    obtain ⟨hclosed', -⟩ := closeUntracked_eq_ok hrest
    refine ⟨t₂', ran, hclose, hclosed'.sites.trans hclosed.sites, ?_, fun i hi => ?_,
      fun i => (hclosed'.begun i).trans (hclosed.begun i), fun i => (hclosed'.clean i).trans (hclosed.clean i)⟩
    · rw [← hopen, Bool.eq_iff_iff, hclosed'.isOpen]
      simp
    · have hnot := ((hclosed'.isOpen i).1 hi).2
      rw [hclosed'.stack]
      by_contra hor
      rw [not_or] at hor
      exact hnot ⟨by simpa using hor.1, hor.2⟩
  · obtain ⟨t₂, hpure, h⟩ := bind_eq_ok_iff.1 h
    cases hpure
    obtain ⟨⟨t₃, ran⟩, hclose, h⟩ := bind_eq_ok_iff.1 h
    cases h
    refine ⟨t₁, ran, hclose, hclosed.sites, hopen, fun i hi => ?_, hclosed.begun, hclosed.clean⟩
    -- nothing is untracked, so that everything that runs was on the stack
    have hzero : t.untracked = 0 := by
      have hsame : t₁.untracked = t.untracked := huntracked
      have hnone : ¬ 0 < t₁.untracked := hpos
      omega
    obtain ⟨hi, hnot⟩ := (hclosed.isOpen i).1 hi
    rw [hclosed.stack]
    exact (mem_stack_cases hmem (ht.mem_stack hzero hi)).resolve_left hnot

/-- Ending a statement counts its execution if it runs, and closes as errors what began inside it. -/
theorem finish_eq_ok {t t' : Tally} {id : Nat} {now rows : Counter} {isError : Bool} (ht : t.Tracked)
    (h : t.finish id now rows isError = .ok t') :
    t'.sites = t.sites ∧ t'.Tracked ∧ t'.isOpen id = false ∧ (∀ i, t'.begun i = t.begun i) ∧
      ∀ i, t'.clean i = t.clean i + if i = id ∧ t.isOpen id = true ∧ isError = false then 1 else 0 := by
  by_cases hmem : id ∈ t.stack
  · obtain ⟨t₁, ran, hclose, hsites₁, hopen₁, hleft, hbegun₁, hclean₁⟩ := finish_on_stack ht hmem h
    obtain ⟨hstack, -, hsites, hopen, hbegun, hclean⟩ := close_eq_ok hclose
    refine ⟨hsites.trans hsites₁, tracked_of_subset fun i hi => ?_, ?_,
      fun i => (hbegun i).trans (hbegun₁ i), fun i => ?_⟩
    · obtain ⟨hi, hne⟩ := (hopen i).1 hi
      rw [hstack]
      exact (hleft i hi).resolve_left hne
    · simp [Bool.eq_false_iff, hopen]
    · rw [hclean, hclean₁, hopen₁]
  · unfold finish at h
    dsimp only at h
    rw [if_neg (by simpa using hmem)] at h
    obtain ⟨t₀, hpure, h⟩ := bind_eq_ok_iff.1 h
    cases hpure
    obtain ⟨⟨t₁, ran⟩, hclose, h⟩ := bind_eq_ok_iff.1 h
    cases h
    by_cases hrun : t.isOpen id = true
    · rw [if_pos hrun] at hclose
      obtain ⟨hstack, huntracked, hsites, hopen, hbegun, hclean⟩ := close_eq_ok hclose
      exact ⟨hsites, ht.close_untracked hrun hmem hsites hstack huntracked hopen,
        by simp [Bool.eq_false_iff, hopen], hbegun, hclean⟩
    · rw [if_neg hrun] at hclose
      obtain ⟨hstack, huntracked, hsites, hopen, hbegun, hclean⟩ := close_eq_ok hclose
      refine ⟨hsites, ?_, by simp [Bool.eq_false_iff, hopen], hbegun, hclean⟩
      unfold Tracked at ht ⊢
      rw [huntracked, hstack, ← length_sites, hsites, length_sites]
      exact (Finset.card_le_card (Finset.monotone_filter_right _ fun i _ hi => ⟨((hopen i).1 hi.1).1, hi.2⟩)).trans
        ht

theorem timers_start (t : Tally) (id : Nat) (now : Counter) :
    (t.start id now).timers = t.timers.modify id fun timer => { timer with startedAt := some now } := by
  unfold start
  dsimp only
  split_ifs <;> rfl

/-- Only the timer of the statement that starts changes. -/
theorem changed_start {t : Tally} {id : Nat} {timer : Timer} (htimer : t.timers[id]? = some timer)
    (now : Counter) : Changed t id { timer with startedAt := some now } (t.start id now) := by
  refine ⟨fun i => ?_⟩
  rw [timers_start]
  exact (changed_modify htimer _).getElem? i

/-- A statement that starts is put on the stack or, if the stack is full, counted as untracked. -/
theorem Tracked.start {t : Tally} {id : Nat} (ht : t.Tracked) (now : Counter)
    (hsize : (t.start id now).size = t.size)
    (hopen : ∀ i, (t.start id now).isOpen i = true ↔ i = id ∨ t.isOpen i = true) :
    (t.start id now).Tracked := by
  unfold Tracked at ht ⊢
  rw [hsize]
  by_cases hroom : t.stack.length < maxOpen
  · have hstart : (t.start id now).stack = id :: t.stack ∧ (t.start id now).untracked = t.untracked := by
      unfold Tally.start
      simp [hroom]
    rw [hstart.1, hstart.2]
    refine le_trans (Finset.card_le_card (Finset.monotone_filter_right _ fun i _ hi => ?_)) ht
    rw [List.mem_cons, not_or] at hi
    exact ⟨((hopen i).1 hi.1).resolve_left hi.2.1, hi.2.2⟩
  · have hstart : (t.start id now).stack = t.stack ∧ (t.start id now).untracked = t.untracked + 1 := by
      unfold Tally.start
      simp [hroom]
    rw [hstart.1, hstart.2]
    refine le_trans (Finset.card_le_card ?_) ((Finset.card_insert_le id _).trans (Nat.succ_le_succ ht))
    intro i hi
    obtain ⟨hlt, hi, hnot⟩ := Finset.mem_filter.1 hi
    rw [Finset.mem_insert, Finset.mem_filter]
    exact ((hopen i).1 hi).imp_right fun hi => ⟨hlt, hi, hnot⟩

/-- An idle statement that starts has begun once more. -/
theorem start_eq {t : Tally} {id : Nat} (ht : t.Tracked) (hid : id < t.size) (hidle : t.isOpen id = false)
    (now : Counter) :
    (t.start id now).sites = t.sites ∧ (t.start id now).Tracked ∧
      (∀ i, (t.start id now).begun i = t.begun i + if i = id then 1 else 0) ∧
      ∀ i, (t.start id now).clean i = t.clean i := by
  obtain ⟨timer, htimer⟩ : ∃ timer, t.timers[id]? = some timer := ⟨_, Array.getElem?_eq_getElem hid⟩
  have hchanged := changed_start htimer now
  have hsites : (t.start id now).sites = t.sites := hchanged.sites_eq htimer rfl
  have hexec : ∀ i, (t.start id now).exec i = t.exec i := hchanged.exec_same htimer rfl
  have herr : ∀ i, (t.start id now).err i = t.err i := hchanged.err_same htimer rfl
  refine ⟨hsites, ht.start now (by rw [← length_sites, hsites, length_sites]) fun i => ?_, fun i => ?_,
    fun i => by rw [clean, clean, hexec, herr]⟩
  · rw [hchanged.isOpen_eq]
    by_cases hi : i = id
    · simp [hi, Timer.isOpen]
    · simp [hi]
  · unfold begun
    rw [hchanged.isOpen_eq, hexec]
    split_ifs with hi
    · rw [hi, hidle]
      simp [Timer.isOpen]
    · rfl

/-- Beginning a statement begins one execution of it, whether or not one ran before. -/
theorem begin_eq_ok {t t' : Tally} {id : Nat} {now : Counter} (ht : t.Tracked) (hid : id < t.size)
    (h : t.begin id now = .ok t') :
    t'.sites = t.sites ∧ t'.Tracked ∧ (∀ i, t'.begun i = t.begun i + if i = id then 1 else 0) ∧
      ∀ i, t'.clean i = t.clean i := by
  unfold Tally.begin at h
  rw [if_pos hid] at h
  dsimp only at h
  by_cases hrun : t.isOpen id = true
  · rw [if_pos hrun] at h
    obtain ⟨t₁, hfinish, h⟩ := bind_eq_ok_iff.1 h
    cases h
    obtain ⟨hsites, htracked, hidle, hbegun, hclean⟩ := finish_eq_ok ht hfinish
    have hlt : id < t₁.size := by rwa [← length_sites, hsites, length_sites]
    obtain ⟨hsites', htracked', hbegun', hclean'⟩ := start_eq htracked hlt hidle now
    refine ⟨hsites'.trans hsites, htracked', fun i => by rw [hbegun', hbegun], fun i => ?_⟩
    rw [hclean', hclean]
    simp
  · rw [if_neg hrun] at h
    cases h
    exact start_eq ht hid (by simpa using hrun) now

/-- At the end of a call nothing runs any more. -/
theorem closeOpen_eq_ok {t t' : Tally} {now : Counter} {n : Nat} (ht : t.Tracked)
    (h : t.closeOpen now = .ok (t', n)) :
    t'.sites = t.sites ∧ (∀ i, t'.isOpen i = false) ∧ (∀ i, t'.begun i = t.begun i) ∧
      ∀ i, t'.clean i = t.clean i := by
  obtain ⟨⟨t₁, k⟩, hclose, h⟩ := bind_eq_ok_iff.1 h
  obtain ⟨hclosed, huntracked⟩ := closeAll_eq_ok hclose
  dsimp only at h
  split_ifs at h with hpos
  · obtain ⟨⟨t₂, k'⟩, hrest, h⟩ := bind_eq_ok_iff.1 h
    cases h
    obtain ⟨hclosed', -⟩ := closeUntracked_eq_ok hrest
    refine ⟨hclosed'.sites.trans hclosed.sites, fun i => ?_, fun i => (hclosed'.begun i).trans (hclosed.begun i),
      fun i => (hclosed'.clean i).trans (hclosed.clean i)⟩
    rw [Bool.eq_false_iff, ne_eq, hclosed'.isOpen, hclosed.stack]
    simp
  · -- nothing is untracked, so that everything that ran was on the stack
    have hzero : t.untracked = 0 := by
      have hsame : t₁.untracked = t.untracked := huntracked
      omega
    cases h
    refine ⟨hclosed.sites, fun i => ?_, hclosed.begun, hclosed.clean⟩
    rw [Bool.eq_false_iff, ne_eq, hclosed.isOpen]
    exact fun hi => hi.2 (ht.mem_stack hzero hi.1)

/-- The root is credited with one execution if none of it was counted. -/
theorem creditEntry_eq {t : Tally} (hsize : 0 < t.size) (now : Counter) :
    (t.creditEntry now).sites = t.sites ∧ (∀ i, (t.creditEntry now).err i = t.err i) ∧
      ∀ i, (t.creditEntry now).exec i = t.exec i + if i = 0 ∧ t.exec 0 = 0 then 1 else 0 := by
  obtain ⟨timer, htimer⟩ : ∃ timer, t.timers[0]? = some timer := ⟨_, Array.getElem?_eq_getElem hsize⟩
  have hchanged : Changed t 0 _ (t.creditEntry now) := changed_modify htimer _
  have hexec : t.exec 0 = timer.execCount.toNat := by simp [exec, htimer]
  have hnone : timer.execCount = 0 ↔ timer.execCount.toNat = 0 := by rw [← UInt64.toNat_inj]; rfl
  refine ⟨hchanged.sites_eq htimer ?_, hchanged.err_same htimer ?_, fun i => ?_⟩
  · split_ifs <;> rfl
  · split_ifs <;> rfl
  · rw [hchanged.exec_eq, hexec]
    by_cases hi : i = 0
    · rw [if_pos hi, hi, hexec]
      by_cases hzero : timer.execCount = 0
      · simp [hzero]
      · simp [hzero, mt hnone.2 hzero]
    · simp [hi]

/-! ### The first and the last tally of a call -/

theorem ofLine_of_new {m : Numbering} {now : Counter} {i : Nat} {timer : Timer}
    (h : (new m now).timers[i]? = some timer) : ∃ line fingerprint, timer = Timer.ofLine line fingerprint := by
  rw [new, List.getElem?_toArray] at h
  obtain ⟨line, fingerprint, -, -, he⟩ := List.getElem?_zipWith_eq_some.1 h
  exact ⟨line, fingerprint, he.symm⟩

/-- Nothing has begun when a call begins. -/
theorem new_eq (m : Numbering) (now : Counter) :
    (new m now).sites = m.lines.zip m.fingerprints ∧ (new m now).Tracked ∧
      (∀ i, (new m now).begun i = 0) ∧ ∀ i, (new m now).clean i = 0 := by
  have hcounts : ∀ i, (new m now).exec i = 0 ∧ (new m now).err i = 0 ∧ (new m now).isOpen i = false := by
    intro i
    unfold exec err isOpen
    cases hi : (new m now).timers[i]? with
    | none => exact ⟨rfl, rfl, rfl⟩
    | some timer =>
      obtain ⟨line, fingerprint, rfl⟩ := ofLine_of_new hi
      exact ⟨rfl, rfl, rfl⟩
  refine ⟨?_, tracked_of_subset fun i hi => ?_, fun i => ?_, fun i => ?_⟩
  · rw [sites, new, List.toList_toArray, List.map_zipWith]
    exact (List.zip_eq_zipWith ..).symm
  · simp [hcounts] at hi
  · simp [begun, hcounts]
  · simp [clean, hcounts]

/-- The records of a tally show its counts. -/
theorem getElem?_toRecords {t : Tally} {i : Nat} (hi : i < t.size) :
    ∃ x, t.toRecords[i]? = some x ∧ x.execCount.toNat = t.exec i ∧ x.errorCount.toNat = t.err i := by
  have htimer : t.timers[i]? = some t.timers[i] := Array.getElem?_eq_getElem hi
  refine ⟨t.timers[i].toRecord, ?_, ?_, ?_⟩
  · simp [toRecords, htimer]
  · simp [exec, htimer, Timer.toRecord]
  · simp [err, htimer, Timer.toRecord]

theorem map_line_toRecords (t : Tally) : t.toRecords.map Record.line = t.sites.map Prod.fst := by
  rw [toRecords, sites, List.map_map, List.map_map]
  rfl

end Tally

end ProcProfile
