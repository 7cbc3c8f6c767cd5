import Mathlib.Data.Finset.Card
import Mathlib.Tactic
import ProcProfile.Table

/-!
# Searching a slot table

A search that starts at the home slot of a key passes used slots and marks of removed entries and stops
at the first slot that was never used.  It finds every entry as long as no such slot lies between the
home of a key and the slot that holds it.  `Sound` states this for all entries at once, together with
two more facts: no key stands in two slots, and no slot has a state without a meaning.

* `Holds`: a slot holds the entry of a key, said of the slots alone;
* `find?_eq_some_iff`: the search finds exactly the slot that holds the key;
* `lookup_cases`: what a search answers, and what a failed one says about the slot that it offers;
* `Sound` is kept by `place` at an offered slot, by `remove`, `clear`, `write` and `setMutex`;
* `usedSlots`, `entries`, `indices`: the used slots, counted and listed.
-/

namespace ProcProfile

namespace Slot

variable {κ ν : Type}

theorem status_eq_empty_iff (s : Slot κ ν) : s.status = .empty ↔ s.state = emptyWord := by
  unfold status
  split_ifs with h1 h2 h3 <;> simp [h1]

theorem status_eq_used_iff (s : Slot κ ν) : s.status = .used ↔ s.isUsed = true := by
  unfold status isUsed
  split_ifs with h1 h2 h3
  · simp [h1, emptyWord, usedWord]
  · simp [h2]
  · simp [h2]
  · simp [h2]

/-- An insertion may take the slot. -/
def Free (s : Slot κ ν) : Prop := s.status = .empty ∨ s.status = .deleted

theorem not_isUsed_of_free {s : Slot κ ν} (h : s.Free) : ¬ s.isUsed = true := by
  rw [← status_eq_used_iff]
  rcases h with h | h <;> rw [h] <;> simp

theorem free_of_not_isUsed {s : Slot κ ν} (hk : s.status ≠ .unknown) (h : ¬ s.isUsed = true) :
    s.Free := by
  rw [← status_eq_used_iff] at h
  unfold Free
  cases hs : s.status <;> simp_all

end Slot

namespace Table

variable {κ ν : Type}

/-! ### The way of a search -/

section Way

variable [Slotted κ]

/-- The slot that the search for a key looks at after `d` others. -/
def way (t : Table κ ν) (key : κ) (d : Nat) : Nat := (t.home key + d) % t.size

/-- The way of a search leads past every slot. -/
theorem exists_way {t : Table κ ν} (key : κ) {i : Nat} (hi : i < t.size) :
    ∃ d < t.size, t.way key d = i := by
  have hh : t.home key < t.size := Nat.mod_lt _ (by omega)
  by_cases h : t.home key ≤ i
  · refine ⟨i - t.home key, by omega, ?_⟩
    rw [way, show t.home key + (i - t.home key) = i by omega, Nat.mod_eq_of_lt hi]
  · refine ⟨i + t.size - t.home key, by omega, ?_⟩
    rw [way, show t.home key + (i + t.size - t.home key) = i + t.size by omega, Nat.add_mod_right,
      Nat.mod_eq_of_lt hi]

theorem way_lt {t : Table κ ν} (key : κ) {d : Nat} (hd : d < t.size) : t.way key d < t.size :=
  Nat.mod_lt _ (by omega)

end Way

/-! ### The slots after an operation -/

@[simp] theorem size_place (t : Table κ ν) (i : Nat) (key : κ) (value : ν) :
    (t.place i key value).size = t.size := t.size_set i _

theorem nodup_indices (t : Table κ ν) (test : κ → Bool) : (t.indices test).Nodup := by
  have hdistinct := Std.TreeMap.distinct_keys_toList (t := t.written)
  unfold indices List.Nodup
  rw [List.pairwise_filterMap]
  refine hdistinct.imp fun {a b} hab i hi j hj hij => hab ?_
  rw [Option.ite_none_right_eq_some, Option.some.injEq] at hi hj
  rw [hi.2, hj.2, hij]
  exact compare_eq_iff_eq.2 rfl

variable [Inhabited κ] [Inhabited ν]

@[simp] theorem isUsed_default : (default : Slot κ ν).isUsed = false := rfl

theorem isUsed_lt {t : Table κ ν} {i : Nat} (h : t.isUsed i = true) : i < t.size := by
  by_contra hi
  rw [isUsed, t.get_of_size_le (by omega), isUsed_default] at h
  exact Bool.false_ne_true h

theorem get_place (t : Table κ ν) {i : Nat} (hi : i < t.size) (key : κ) (value : ν) (j : Nat) :
    (t.place i key value).get j = if i = j then ⟨Slot.usedWord, 0, key, value⟩ else t.get j :=
  t.get_set _ hi j

theorem get_modify (t : Table κ ν) (i : Nat) (f : Slot κ ν → Slot κ ν) (j : Nat) :
    (t.modify i f).get j = if i = j ∧ i < t.size then f (t.get j) else t.get j := by
  unfold modify
  by_cases hi : i < t.size
  · rw [t.get_set _ hi]
    by_cases hij : i = j
    · subst hij; simp [hi]
    · simp [hij]
  · rw [t.set_of_size_le _ (by omega)]
    simp [hi]

@[simp] theorem size_modify (t : Table κ ν) (i : Nat) (f : Slot κ ν → Slot κ ν) :
    (t.modify i f).size = t.size := t.size_set i _

@[simp] theorem size_remove (t : Table κ ν) (i : Nat) : (t.remove i).size = t.size := by
  unfold remove
  split_ifs <;> simp

@[simp] theorem size_write (t : Table κ ν) (i : Nat) (value : ν) : (t.write i value).size = t.size :=
  t.size_modify i _

@[simp] theorem size_setMutex (t : Table κ ν) (i : Nat) (word : UInt32) :
    (t.setMutex i word).size = t.size := t.size_modify i _

theorem remove_of_not_isUsed {t : Table κ ν} {i : Nat} (h : ¬ t.isUsed i = true) : t.remove i = t :=
  if_neg h

theorem get_remove (t : Table κ ν) (i j : Nat) :
    (t.remove i).get j =
      if i = j ∧ t.isUsed i = true then { t.get j with state := Slot.deletedWord } else t.get j := by
  unfold remove
  by_cases hu : t.isUsed i = true
  · rw [if_pos hu, get_modify]
    simp only [hu, isUsed_lt hu]
  · rw [if_neg hu, if_neg (by simp [hu])]

theorem get_write (t : Table κ ν) (i : Nat) (value : ν) (j : Nat) :
    (t.write i value).get j =
      if i = j ∧ i < t.size then { t.get j with value := value } else t.get j :=
  t.get_modify i _ j

theorem get_setMutex (t : Table κ ν) (i : Nat) (word : UInt32) (j : Nat) :
    (t.setMutex i word).get j =
      if i = j ∧ i < t.size then { t.get j with mutex := word } else t.get j :=
  t.get_modify i _ j

/-! ### Entries by slot -/

/-- Slot `i` holds the entry of `key`. -/
def Holds (t : Table κ ν) (i : Nat) (key : κ) : Prop := t.isUsed i = true ∧ (t.get i).key = key

theorem Holds.key_unique {t : Table κ ν} {i : Nat} {k k' : κ} (h : t.Holds i k) (h' : t.Holds i k') :
    k = k' := h.2.symm.trans h'.2

theorem not_holds_new (n i : Nat) (key : κ) : ¬ (new n : Table κ ν).Holds i key := by
  rintro ⟨hu, -⟩
  rw [isUsed, get_new, isUsed_default] at hu
  exact Bool.false_ne_true hu

theorem holds_place (t : Table κ ν) {i : Nat} (hi : i < t.size) (key : κ) (value : ν) (j : Nat) (k : κ) :
    (t.place i key value).Holds j k ↔ if i = j then key = k else t.Holds j k := by
  unfold Holds isUsed
  rw [t.get_place hi]
  split_ifs with hij
  · simp [Slot.isUsed]
  · rfl

theorem holds_remove (t : Table κ ν) (i j : Nat) (k : κ) :
    (t.remove i).Holds j k ↔ i ≠ j ∧ t.Holds j k := by
  unfold Holds
  rw [isUsed, get_remove]
  by_cases hij : i = j
  · subst hij
    by_cases hu : t.isUsed i = true
    · simp [hu, Slot.isUsed, Slot.deletedWord, Slot.usedWord]
    · rw [if_neg (by simp [hu])]
      exact ⟨fun h => absurd h.1 hu, fun h => absurd rfl h.1⟩
  · simp [hij, isUsed]

theorem not_holds_clear (t : Table κ ν) (i : Nat) (key : κ) : ¬ t.clear.Holds i key := by
  rintro ⟨hu, -⟩
  rw [isUsed, get_clear] at hu
  exact absurd hu (by simp [Slot.isUsed, Slot.emptyWord, Slot.usedWord])

@[simp] theorem holds_write (t : Table κ ν) (i : Nat) (value : ν) (j : Nat) (k : κ) :
    (t.write i value).Holds j k ↔ t.Holds j k := by
  unfold Holds isUsed
  rw [get_write]
  split_ifs <;> rfl

@[simp] theorem holds_setMutex (t : Table κ ν) (i : Nat) (word : UInt32) (j : Nat) (k : κ) :
    (t.setMutex i word).Holds j k ↔ t.Holds j k := by
  unfold Holds isUsed
  rw [get_setMutex]
  split_ifs <;> rfl

/-! ### Sound tables -/

section Search

variable [Slotted κ]

/-- A table in which the search finds every entry.  Between the home of a key and the slot that holds it
there is no slot that was never used. -/
structure Sound (t : Table κ ν) : Prop where
  known : ∀ i, (t.get i).status ≠ .unknown
  unique : ∀ {i j : Nat} {key : κ}, t.Holds i key → t.Holds j key → i = j
  reachable : ∀ {i : Nat} {key : κ}, t.Holds i key →
    ∃ d < t.size, t.way key d = i ∧ ∀ e < d, (t.get (t.way key e)).status ≠ .empty

/-- `w` is the first slot on the way of `key`, from step `d` on, that an insertion may take. -/
def FirstFree (t : Table κ ν) (key : κ) (d : Nat) : (w : Option Nat) → Prop
  | none => ∀ e, d ≤ e → e < t.size → ¬ (t.get (t.way key e)).Free
  | some i => ∃ f, d ≤ f ∧ f < t.size ∧ t.way key f = i ∧ (t.get i).Free ∧
      ∀ e, d ≤ e → e < f → ¬ (t.get (t.way key e)).Free

/-- A slot that cannot be taken does not change which one comes first. -/
theorem FirstFree.pass {t : Table κ ν} {key : κ} {d : Nat} {w : Option Nat}
    (h : t.FirstFree key (d + 1) w) (hd : ¬ (t.get (t.way key d)).Free) : t.FirstFree key d w := by
  cases w with
  | none =>
    intro e hde he
    rcases Nat.eq_or_lt_of_le hde with rfl | hlt
    · exact hd
    · exact h e hlt he
  | some i =>
    obtain ⟨f, hdf, hf, hw, hfree, hbefore⟩ := h
    refine ⟨f, by omega, hf, hw, hfree, fun e hde hef => ?_⟩
    rcases Nat.eq_or_lt_of_le hde with rfl | hlt
    · exact hd
    · exact hbefore e hlt hef

/-- The slot at which a search stands is the first one free if it is free. -/
theorem FirstFree.here {t : Table κ ν} {key : κ} {d : Nat} (hd : d < t.size)
    (h : (t.get (t.way key d)).Free) : t.FirstFree key d (some (t.way key d)) :=
  ⟨d, le_rfl, hd, rfl, h, fun _ h1 h2 => absurd h2 (by omega)⟩

theorem FirstFree.lt {t : Table κ ν} {key : κ} {d i : Nat} (h : t.FirstFree key d (some i)) :
    i < t.size := by
  obtain ⟨f, -, hf, rfl, -⟩ := h
  exact way_lt key hf

theorem FirstFree.not_isUsed {t : Table κ ν} {key : κ} {d i : Nat} (h : t.FirstFree key d (some i)) :
    ¬ t.isUsed i = true := by
  obtain ⟨f, -, -, -, hfree, -⟩ := h
  exact Slot.not_isUsed_of_free hfree

/-! ### Operations that keep a table sound -/

theorem sound_new (n : Nat) : (new n : Table κ ν).Sound where
  known i := by
    rw [get_new, (Slot.status_eq_empty_iff (default : Slot κ ν)).2 rfl]
    simp
  unique hi := absurd hi (not_holds_new n _ _)
  reachable hi := absurd hi (not_holds_new n _ _)

/-- A table stays sound while no entry is added and no slot becomes one that was never used. -/
theorem Sound.of_le {t t' : Table κ ν} (h : t.Sound) (hsize : t'.size = t.size)
    (hknown : ∀ i, (t'.get i).status ≠ .unknown)
    (hempty : ∀ i, (t'.get i).status = .empty → (t.get i).status = .empty)
    (hholds : ∀ i key, t'.Holds i key → t.Holds i key) : t'.Sound where
  known := hknown
  unique hi hj := h.unique (hholds _ _ hi) (hholds _ _ hj)
  reachable {i key} hi := by
    have hway : ∀ d, t'.way key d = t.way key d := fun d => by simp [way, home, hsize]
    obtain ⟨d, hd, hdi, hpass⟩ := h.reachable (hholds _ _ hi)
    refine ⟨d, hsize ▸ hd, by rw [hway, hdi], fun e he hem => ?_⟩
    rw [hway] at hem
    exact hpass e he (hempty _ hem)

theorem Sound.remove {t : Table κ ν} (h : t.Sound) (i : Nat) : (t.remove i).Sound := by
  refine h.of_le (t.size_remove i) (fun j => ?_) (fun j => ?_) fun j key hj =>
    ((t.holds_remove i j key).1 hj).2
  · rw [get_remove]
    split_ifs
    · simp [Slot.status, Slot.deletedWord, Slot.emptyWord, Slot.usedWord]
    · exact h.known j
  · rw [get_remove]
    split_ifs
    · simp [Slot.status, Slot.deletedWord, Slot.emptyWord, Slot.usedWord]
    · exact id

theorem Sound.modify_of_state_eq {t : Table κ ν} (h : t.Sound) (i : Nat) {f : Slot κ ν → Slot κ ν}
    (hstate : ∀ s, (f s).state = s.state) (hkey : ∀ s, (f s).key = s.key) : (t.modify i f).Sound := by
  have hstatus : ∀ j, ((t.modify i f).get j).status = (t.get j).status := by
    intro j
    rw [get_modify]
    split_ifs <;> simp [Slot.status, hstate]
  refine h.of_le (t.size_modify i f) (fun j => hstatus j ▸ h.known j) (fun j => ?_) fun j key hj => ?_
  · rw [hstatus]
    exact id
  · unfold Holds isUsed at hj ⊢
    rw [get_modify] at hj
    split_ifs at hj
    · simpa [Slot.isUsed, hstate, hkey] using hj
    · exact hj

theorem Sound.write {t : Table κ ν} (h : t.Sound) (i : Nat) (value : ν) : (t.write i value).Sound :=
  h.modify_of_state_eq i (fun _ => rfl) fun _ => rfl

theorem Sound.setMutex {t : Table κ ν} (h : t.Sound) (i : Nat) (word : UInt32) :
    (t.setMutex i word).Sound := h.modify_of_state_eq i (fun _ => rfl) fun _ => rfl

theorem Sound.clear (t : Table κ ν) : t.clear.Sound where
  known i := by rw [get_clear]; simp [Slot.status]
  unique hi := absurd hi (t.not_holds_clear _ _)
  reachable hi := absurd hi (t.not_holds_clear _ _)

/-- An entry may go to the slot that the search for its key offers. -/
theorem Sound.place {t : Table κ ν} (h : t.Sound) {i : Nat} {key : κ} (hfirst : t.FirstFree key 0 (some i))
    (habsent : ∀ j, ¬ t.Holds j key) (value : ν) : (t.place i key value).Sound := by
  have hi := hfirst.lt
  have hway : ∀ k d, (t.place i key value).way k d = t.way k d := fun k d => by simp [way, home]
  -- no slot becomes empty, so every way that led past nonempty slots still does
  have hempty : ∀ j, ((t.place i key value).get j).status = .empty → (t.get j).status = .empty := by
    intro j
    rw [t.get_place hi]
    split_ifs
    · simp [Slot.status, Slot.emptyWord, Slot.usedWord]
    · exact id
  refine ⟨fun j => ?_, fun {j j' k} hj hj' => ?_, fun {j k} hj => ?_⟩
  · rw [t.get_place hi]
    split_ifs
    · simp [Slot.status, Slot.emptyWord, Slot.usedWord]
    · exact h.known j
  · rw [t.holds_place hi] at hj hj'
    split_ifs at hj hj' with h1 h2 h2
    · rw [← h1, ← h2]
    · exact absurd (hj ▸ hj') (habsent j')
    · exact absurd (hj' ▸ hj) (habsent j)
    · exact h.unique hj hj'
  · rw [t.holds_place hi] at hj
    split_ifs at hj with hij
    · subst hij hj
      obtain ⟨f, -, hf, hfi, -, hbefore⟩ := hfirst
      refine ⟨f, by simpa using hf, by rw [hway, hfi], fun e he hem => ?_⟩
      rw [hway] at hem
      exact hbefore e (Nat.zero_le e) he (.inl (hempty _ hem))
    · obtain ⟨d, hd, hdj, hpass⟩ := h.reachable hj
      refine ⟨d, by simpa using hd, by rw [hway, hdj], fun e he hem => ?_⟩
      rw [hway] at hem
      exact hpass e he (hempty _ hem)

/-! ### What the search does -/

theorem scan_succ (t : Table κ ν) (key : κ) (left : Nat) (vacant : Option Nat) :
    t.scan key (t.home key) (left + 1) vacant =
      match (t.get (t.way key (t.size - (left + 1)))).status with
      | .empty => .vacant (vacant.or (some (t.way key (t.size - (left + 1)))))
      | .deleted =>
        t.scan key (t.home key) left (vacant.or (some (t.way key (t.size - (left + 1)))))
      | .used =>
        if (t.get (t.way key (t.size - (left + 1)))).key == key then
          .found (t.way key (t.size - (left + 1)))
        else t.scan key (t.home key) left vacant
      | .unknown => t.scan key (t.home key) left vacant := rfl

/-- A search that fails offers the first free slot of its way. -/
theorem firstFree_of_scan {t : Table κ ν} {key : κ} {left : Nat} (hleft : left ≤ t.size)
    {vacant v : Option Nat} (h : t.scan key (t.home key) left vacant = .vacant v) :
    ∃ w, v = vacant.or w ∧ t.FirstFree key (t.size - left) w := by
  -- the search has `left` slots to go, so that it stands at step `t.size - left` of the way
  induction left generalizing vacant with
  | zero =>
    simp only [scan, Lookup.vacant.injEq] at h
    refine ⟨none, by simp [h], fun e h1 h2 => ?_⟩
    omega
  | succ left ih =>
    rw [scan_succ] at h
    have hstep : t.size - (left + 1) + 1 = t.size - left := by omega
    have hlt : t.size - (left + 1) < t.size := by omega
    split at h
    · rename_i hempty
      cases h
      exact ⟨_, rfl, .here hlt (.inl hempty)⟩
    · rename_i hdeleted
      -- a deleted slot is offered, but the key may still stand behind it
      obtain ⟨w, rfl, -⟩ := ih (by omega) h
      refine ⟨some (t.way key (t.size - (left + 1))), ?_, .here hlt (.inr hdeleted)⟩
      cases vacant <;> rfl
    · rename_i hused
      split_ifs at h
      obtain ⟨w, hw, hfirst⟩ := ih (by omega) h
      exact ⟨w, hw, (hstep ▸ hfirst).pass (by simp [Slot.Free, hused])⟩
    · rename_i hunknown
      obtain ⟨w, hw, hfirst⟩ := ih (by omega) h
      exact ⟨w, hw, (hstep ▸ hfirst).pass (by simp [Slot.Free, hunknown])⟩

variable [LawfulBEq κ]

/-- What a search finds holds the key. -/
theorem holds_of_scan {t : Table κ ν} {key : κ} {left i : Nat} {vacant : Option Nat}
    (h : t.scan key (t.home key) left vacant = .found i) : t.Holds i key := by
  induction left generalizing vacant with
  | zero => simp [scan] at h
  | succ left ih =>
    rw [scan_succ] at h
    split at h
    · simp at h
    · exact ih h
    · rename_i hused
      split_ifs at h with hkey
      · cases h
        exact ⟨(Slot.status_eq_used_iff _).1 hused, eq_of_beq hkey⟩
      · exact ih h
    · exact ih h

/-- A search comes to the slot that holds its key, if no slot before it stops the search. -/
theorem scan_eq_found {t : Table κ ν} {key : κ} {d : Nat} (hd : d < t.size)
    (hheld : t.Holds (t.way key d) key) (hunique : ∀ i, t.Holds i key → i = t.way key d)
    (hpass : ∀ e < d, (t.get (t.way key e)).status ≠ .empty) {left : Nat} (hleft : t.size - left ≤ d)
    (vacant : Option Nat) : t.scan key (t.home key) left vacant = .found (t.way key d) := by
  induction left generalizing vacant with
  | zero => omega
  | succ left ih =>
    rw [scan_succ]
    by_cases hhere : t.size - (left + 1) = d
    · rw [hhere, (Slot.status_eq_used_iff _).2 hheld.1]
      simp [hheld.2]
    · have hrest : t.size - left ≤ d := by omega
      split
      · rename_i hempty
        exact absurd hempty (hpass _ (by omega))
      · exact ih hrest _
      · rename_i hused
        split_ifs with hkey
        · -- the key stands in one slot only, so this step has come to it already
          rw [hunique _ ⟨(Slot.status_eq_used_iff _).1 hused, eq_of_beq hkey⟩]
        · exact ih hrest _
      · exact ih hrest _

/-- Where the search for a key ends: at the slot that holds it; nowhere, if no slot holds it and all are
used; else at the first slot of its way that an insertion may take. -/
theorem lookup_cases {t : Table κ ν} (h : t.Sound) (key : κ) :
    (∃ i, t.Holds i key ∧ t.lookup key = .found i) ∨
    ((∀ i, ¬ t.Holds i key) ∧ (∀ i < t.size, t.isUsed i = true) ∧ t.lookup key = .vacant none) ∨
    ((∀ i, ¬ t.Holds i key) ∧
      ∃ i, t.FirstFree key 0 (some i) ∧ t.lookup key = .vacant (some i)) := by
  by_cases hheld : ∃ i, t.Holds i key
  · obtain ⟨i, hi⟩ := hheld
    obtain ⟨d, hd, rfl, hpass⟩ := h.reachable hi
    exact .inl ⟨_, hi, scan_eq_found hd hi (fun j hj => h.unique hj hi) hpass (by omega) none⟩
  · have habsent : ∀ i, ¬ t.Holds i key := fun i hi => hheld ⟨i, hi⟩
    cases hl : t.lookup key with
    | found i => exact absurd (holds_of_scan hl) (habsent i)
    | vacant v =>
      obtain ⟨w, hw, hfirst⟩ := firstFree_of_scan le_rfl hl
      rw [Option.none_or] at hw
      subst hw
      rw [Nat.sub_self] at hfirst
      cases v with
      | none =>
        refine .inr (.inl ⟨habsent, fun i hi => ?_, rfl⟩)
        -- the way of a key passes every slot of the table
        obtain ⟨d, hd, rfl⟩ := exists_way key hi
        by_contra hused
        exact hfirst d (Nat.zero_le d) hd (Slot.free_of_not_isUsed (h.known _) hused)
      | some i => exact .inr (.inr ⟨habsent, i, hfirst, rfl⟩)

/-- The search finds exactly the slot that holds the key. -/
theorem find?_eq_some_iff {t : Table κ ν} (h : t.Sound) {key : κ} {i : Nat} :
    t.find? key = some i ↔ t.Holds i key := by
  unfold find?
  rcases lookup_cases h key with ⟨j, hj, hl⟩ | ⟨habsent, -, hl⟩ | ⟨habsent, j, -, hl⟩
  · rw [hl]
    exact ⟨fun he => Option.some.inj he ▸ hj, fun hi => congrArg some (h.unique hj hi)⟩
  · simp [hl, habsent i]
  · simp [hl, habsent i]

theorem find?_eq_none_iff {t : Table κ ν} (h : t.Sound) {key : κ} :
    t.find? key = none ↔ ∀ i, ¬ t.Holds i key := by
  rw [Option.eq_none_iff_forall_ne_some]
  exact forall_congr' fun i => not_congr (find?_eq_some_iff h)

end Search

/-! ### Used slots, counted and listed -/

/-- The slots that hold an entry. -/
def usedSlots (t : Table κ ν) : Finset Nat := (Finset.range t.size).filter fun i => t.isUsed i = true

@[simp] theorem mem_usedSlots {t : Table κ ν} {i : Nat} : i ∈ t.usedSlots ↔ t.isUsed i = true := by
  simp only [usedSlots, Finset.mem_filter, Finset.mem_range, and_iff_right_iff_imp]
  exact isUsed_lt

theorem card_usedSlots_le (t : Table κ ν) : t.usedSlots.card ≤ t.size :=
  (Finset.card_filter_le _ _).trans (Finset.card_range _).le

/-- Every slot is used exactly if the used slots are as many as the slots. -/
theorem card_usedSlots_eq_iff (t : Table κ ν) :
    t.usedSlots.card = t.size ↔ ∀ i < t.size, t.isUsed i = true := by
  conv_lhs => rw [← Finset.card_range t.size]
  rw [usedSlots, Finset.card_filter_eq_iff]
  simp

@[simp] theorem usedSlots_new (n : Nat) : (new n : Table κ ν).usedSlots = ∅ := by
  ext i
  simp [isUsed]

@[simp] theorem usedSlots_clear (t : Table κ ν) : t.clear.usedSlots = ∅ := by
  ext i
  simp [isUsed, get_clear, Slot.isUsed, Slot.emptyWord, Slot.usedWord]

theorem usedSlots_place (t : Table κ ν) {i : Nat} (hi : i < t.size) (key : κ) (value : ν) :
    (t.place i key value).usedSlots = insert i t.usedSlots := by
  ext j
  rw [mem_usedSlots, Finset.mem_insert, mem_usedSlots, isUsed, t.get_place hi]
  split_ifs with hij
  · simp [Slot.isUsed, hij]
  · simp [isUsed, Ne.symm hij]

theorem usedSlots_remove (t : Table κ ν) (i : Nat) : (t.remove i).usedSlots = t.usedSlots.erase i := by
  ext j
  rw [mem_usedSlots, Finset.mem_erase, mem_usedSlots, isUsed, get_remove]
  by_cases hij : i = j
  · subst hij
    by_cases hu : t.isUsed i = true
    · simp [hu, Slot.isUsed, Slot.deletedWord, Slot.usedWord]
    · rw [if_neg (by simp [hu])]
      exact ⟨fun h => absurd h hu, fun h => absurd rfl h.1⟩
  · simp [hij, Ne.symm hij, isUsed]

@[simp] theorem usedSlots_write (t : Table κ ν) (i : Nat) (value : ν) :
    (t.write i value).usedSlots = t.usedSlots := by
  ext j
  rw [mem_usedSlots, mem_usedSlots, isUsed, get_write]
  split_ifs <;> rfl

@[simp] theorem usedSlots_setMutex (t : Table κ ν) (i : Nat) (word : UInt32) :
    (t.setMutex i word).usedSlots = t.usedSlots := by
  ext j
  rw [mem_usedSlots, mem_usedSlots, isUsed, get_setMutex]
  split_ifs <;> rfl

theorem get_of_mem_toList {t : Table κ ν} {i : Nat} {slot : Slot κ ν} (h : (i, slot) ∈ t.toList) :
    t.get i = slot := by
  rw [toList, Std.TreeMap.mem_toList_iff_getElem?_eq_some] at h
  rw [get, Std.TreeMap.getD_eq_getD_getElem?, h, Option.getD_some]

theorem mem_toList_of_isUsed {t : Table κ ν} {i : Nat} (h : t.isUsed i = true) :
    (i, t.get i) ∈ t.toList := by
  rw [toList, Std.TreeMap.mem_toList_iff_getElem?_eq_some]
  rw [isUsed, get, Std.TreeMap.getD_eq_getD_getElem?] at h
  rw [get, Std.TreeMap.getD_eq_getD_getElem?]
  cases hi : t.written[i]? with
  | none => simp [hi] at h
  | some slot => rfl

theorem mem_indices {t : Table κ ν} {test : κ → Bool} {i : Nat} :
    i ∈ t.indices test ↔ t.isUsed i = true ∧ test (t.get i).key = true := by
  simp only [indices, List.mem_filterMap, Prod.exists, Option.ite_none_right_eq_some, Bool.and_eq_true,
    Option.some.injEq]
  constructor
  · rintro ⟨j, slot, hmem, ⟨hu, ht⟩, rfl⟩
    rw [isUsed, get_of_mem_toList hmem]
    exact ⟨hu, ht⟩
  · rintro ⟨hu, ht⟩
    exact ⟨i, t.get i, mem_toList_of_isUsed hu, ⟨hu, ht⟩, rfl⟩

/-- The entries are those of the used slots, slot by slot. -/
theorem entries_eq_map (t : Table κ ν) :
    t.entries = (t.indices fun _ => true).map fun i => ((t.get i).key, (t.get i).value) := by
  unfold entries indices
  rw [List.map_filterMap]
  refine List.filterMap_congr fun a ha => ?_
  simp only [Bool.and_true]
  split_ifs
  · rw [Option.map_some, get_of_mem_toList ha]
  · rfl

theorem mem_entries {t : Table κ ν} {key : κ} {value : ν} :
    (key, value) ∈ t.entries ↔ ∃ i, t.Holds i key ∧ (t.get i).value = value := by
  rw [entries_eq_map, List.mem_map]
  constructor
  · rintro ⟨i, hi, he⟩
    cases he
    exact ⟨i, ⟨(mem_indices.1 hi).1, rfl⟩, rfl⟩
  · rintro ⟨i, ⟨hu, rfl⟩, rfl⟩
    exact ⟨i, mem_indices.2 ⟨hu, rfl⟩, rfl⟩

/-- No key is listed twice. -/
theorem nodup_keys_entries [Slotted κ] {t : Table κ ν} (h : t.Sound) :
    (t.entries.map Prod.fst).Nodup := by
  rw [entries_eq_map, List.map_map]
  refine List.Nodup.map_on (fun i hi j hj hij => ?_) (t.nodup_indices _)
  exact h.unique ⟨(mem_indices.1 hi).1, hij⟩ ⟨(mem_indices.1 hj).1, rfl⟩

end Table

end ProcProfile
