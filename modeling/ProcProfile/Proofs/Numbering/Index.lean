import Mathlib.Tactic
import ProcProfile.Numbering
import ProcProfile.Proofs.Fault
import ProcProfile.Proofs.Statement

/-!
# How statements are recognised

A numbering recognises statements by the interpreter's ids, or by the places where they live.  The ids lead to
natural ids kept in 32 bits, which hold those below 2³¹.  The places are looked up line by line: under each line stand
the positions of its statements.

* `Statement.listing`: a statement, then the listings of the statements in its arms;
* `Numbering.Refused`, `Numbering.FirstRefused`: an id that is missing or seen before, and the first such one;
* `StatementIndex.held?_ofNat_eq_iff`: which natural ids 32 bits hold;
* `StatementIndex.Leads`, `LineIndex.Files`: what each of the two indexes says of the statements in it;
* `StatementIndex.endsIn_assign`, `Numbering.endsIn_indexFrom`: one statement more, and all statements of a list.
-/

namespace ProcProfile

namespace Statement

/-- The statement, and then, arm by arm, the listings of the statements in its arms. -/
def listing (s : Statement) : List Statement :=
  s :: (s.arms.flatMap Prod.snd).attach.flatMap fun c => c.1.listing
termination_by s.count
decreasing_by
  have hle : c.1.count ≤ counts s.nested := count_le_counts c.2
  have heq := s.count_eq
  omega

theorem listing_eq (s : Statement) : s.listing = s :: s.nested.flatMap listing := by
  rw [listing, ← nested]
  simp

/-- The walk passes the statements as they are listed. -/
theorem preorder_eq_listing (s : Statement) : s.preorder = s.listing := by
  induction s using nested_induction with
  | step s ih =>
    rw [preorder_eq, listing_eq, preorders, List.flatMap_congr ih]

end Statement

namespace Numbering

/-! ### The interpreter's ids -/

/-- Why a statement cannot be told apart by the interpreter's ids from those listed before it. -/
inductive Refused (earlier : List Statement) (s : Statement) : WalkError → Prop
  | absent (h : s.nativeId = none ∨ s.nativeId = some 0) : Refused earlier s (.unmappedStatement s.line)
  | repeated {id : UInt32} (h : s.nativeId = some id) (hseen : some id ∈ earlier.map Statement.nativeId) :
      Refused earlier s (.duplicateNativeId id)

/-- No statement of a list is refused. -/
def Distinguished (list : List Statement) : Prop :=
  ∀ front s back, list = front ++ s :: back → ∀ e, ¬ Refused front s e

/-- The first statement of a list that is refused, and why. -/
def FirstRefused (list : List Statement) (e : WalkError) : Prop :=
  ∃ front s back, list = front ++ s :: back ∧ Distinguished front ∧ Refused front s e

theorem distinguished_nil : Distinguished [] := by
  intro front s back h
  simp at h

theorem Distinguished.append_singleton {list : List Statement} {s : Statement} (h : Distinguished list)
    (hs : ∀ e, ¬ Refused list s e) : Distinguished (list ++ [s]) := by
  intro front c back heq
  rcases List.eq_nil_or_concat back with rfl | ⟨back, last, rfl⟩
  · obtain ⟨rfl, hc⟩ := List.append_inj' heq rfl
    cases hc
    exact hs
  · rw [List.concat_eq_append, ← List.cons_append, ← List.append_assoc] at heq
    exact h front c back (List.append_inj' heq rfl).1

theorem Distinguished.exists_id {list : List Statement} (h : Distinguished list) {s : Statement} (hs : s ∈ list) :
    ∃ id, s.nativeId = some id ∧ id ≠ 0 := by
  obtain ⟨front, back, rfl⟩ := List.append_of_mem hs
  have habsent := fun h' => h front s back rfl _ (.absent h')
  cases hid : s.nativeId with
  | none => exact absurd (.inl hid) habsent
  | some id => exact ⟨id, rfl, fun hzero => habsent (.inr (hzero ▸ hid))⟩

theorem Refused.unique {earlier : List Statement} {s : Statement} {e e' : WalkError} (hearlier : Distinguished earlier)
    (h : Refused earlier s e) (h' : Refused earlier s e') : e = e' := by
  -- an id that was seen before is neither missing nor zero
  have hseen : ∀ {id}, s.nativeId = some id → some id ∈ earlier.map Statement.nativeId →
      ¬ (s.nativeId = none ∨ s.nativeId = some 0) := by
    intro id hid hmem
    obtain ⟨c, hc, hcid⟩ := List.mem_map.1 hmem
    obtain ⟨id', hid', hne⟩ := hearlier.exists_id hc
    rw [hid, ← hcid, hid']
    simpa using hne
  cases h with
  | absent habsent =>
    cases h' with
    | absent _ => rfl
    | repeated hid hmem => exact absurd habsent (hseen hid hmem)
  | repeated hid hmem =>
    cases h' with
    | absent habsent => exact absurd habsent (hseen hid hmem)
    | repeated hid' _ =>
      rw [hid, Option.some.injEq] at hid'
      rw [hid']

theorem FirstRefused.not_distinguished {list : List Statement} {e : WalkError} (h : FirstRefused list e) :
    ¬ Distinguished list := by
  obtain ⟨front, s, back, rfl, -, hs⟩ := h
  exact fun hlist => hlist front s back rfl e hs

theorem FirstRefused.unique {list : List Statement} {e e' : WalkError} (h : FirstRefused list e)
    (h' : FirstRefused list e') : e = e' := by
  obtain ⟨front, s, back, rfl, hfront, hs⟩ := h
  obtain ⟨front', s', back', heq, hfront', hs'⟩ := h'
  rcases List.append_eq_append_iff.1 heq with ⟨between, rfl, hback⟩ | ⟨between, rfl, hback⟩
  · cases between with
    | nil =>
      rw [List.append_nil] at hfront' hs'
      cases hback
      exact hs.unique hfront hs'
    | cons c between =>
      cases hback
      exact absurd hs (hfront' front s between rfl e)
  · cases between with
    | nil =>
      rw [List.append_nil] at hfront hs
      cases hback
      exact hs.unique hfront hs'
    | cons c between =>
      cases hback
      exact absurd hs' (hfront front' s' between rfl e')

end Numbering

namespace StatementIndex

open ProcProfile.Numbering

/-! ### Natural ids in 32 bits -/

theorem held?_eq_none_iff {held : Int32} : held? held = none ↔ held = gap := by
  simp [held?]

theorem toNat_toInt64_ofNat (n : Nat) : (Int32.ofNat n).toInt64.toUInt64.toNat =
    n % 2 ^ 32 + if 2 ^ 31 ≤ n % 2 ^ 32 then 2 ^ 64 - 2 ^ 32 else 0 := by
  have hextend : (Int32.ofNat n).toInt64.toUInt64.toNat = ((BitVec.ofNat 32 n).signExtend 64).toNat := rfl
  rw [hextend, BitVec.toNat_signExtend, BitVec.msb_eq_decide]
  simp only [BitVec.toNat_ofNat, BitVec.toNat_setWidth, decide_eq_true_eq]
  split_ifs <;> omega

/-- A natural id comes back from its 32 bits exactly if it is below 2³¹. -/
theorem held?_ofNat_eq_iff {n : Nat} (h : n < 2 ^ 63) : held? (Int32.ofNat n) = some n ↔ n < 2 ^ 31 := by
  have hgap : Int32.ofNat n = gap ↔ n % 2 ^ 32 = 2 ^ 32 - 1 := by
    rw [gap, ← Int32.toBitVec_inj, ← BitVec.toNat_inj]
    rfl
  rw [held?, toNat_toInt64_ofNat]
  simp only [hgap]
  split_ifs <;> simp <;> omega

/-- A table leads exactly from the ids of the listed statements to their positions. -/
def Leads (naturalOf : Std.HashMap UInt32 Int32) (list : List Statement) : Prop :=
  ∀ (id : UInt32) (k : Nat),
    held? (naturalOf.getD id gap) = some k ↔ (list.map Statement.nativeId)[k]? = some (some id)

theorem leads_nil : Leads ∅ [] := by
  intro id k
  simp [held?]

theorem Leads.seen_iff {naturalOf : Std.HashMap UInt32 Int32} {list : List Statement} (h : Leads naturalOf list)
    (id : UInt32) : naturalOf.getD id gap ≠ gap ↔ some id ∈ list.map Statement.nativeId := by
  rw [Ne, ← held?_eq_none_iff, ← ne_eq, Option.ne_none_iff_exists', List.mem_iff_getElem?]
  exact exists_congr fun k => h id k

/-- A statement with a new id is entered at the end of a list that is not too long. -/
theorem Leads.insert {naturalOf : Std.HashMap UInt32 Int32} {list : List Statement} (h : Leads naturalOf list)
    {s : Statement} {id : UInt32} (hid : s.nativeId = some id) (hnew : naturalOf.getD id gap = gap)
    (hshort : list.length < 2 ^ 31) :
    Leads (naturalOf.insert id (Int32.ofNat list.length)) (list ++ [s]) := by
  intro id' k
  have hat : ((list ++ [s]).map Statement.nativeId)[k]? = some (some id') ↔
      (list.map Statement.nativeId)[k]? = some (some id') ∨ list.length = k ∧ id = id' := by
    rw [List.map_append, List.map_singleton, hid]
    grind
  rw [hat, ← h id' k, Std.HashMap.getD_insert]
  simp only [beq_iff_eq]
  split_ifs with hsame
  · subst hsame
    have hnone : held? (naturalOf.getD id gap) = none := held?_eq_none_iff.2 hnew
    have hheld := (held?_ofNat_eq_iff (by omega : list.length < 2 ^ 63)).2 hshort
    simp [hnone, hheld]
  · simp [hsame]

end StatementIndex

/-! ### Places by line -/

namespace LineIndex

variable {x : LineIndex} {places : Nat → Place} {list : List Statement}

/-- The index of a list of statements. -/
def ofList (places : Nat → Place) (list : List Statement) : LineIndex :=
  list.zipIdx.foldl (fun x s => x.insert s.1 (places s.2) s.2) empty

/-- The listed statements are indexed under their places and positions, and under each line stand the positions of
its statements, in order. -/
structure Files (places : Nat → Place) (list : List Statement) (x : LineIndex) : Prop where
  entries : x.entries.toList = (List.range list.length).map fun k => ⟨places k, k⟩
  onLine : ∀ line, (x.byLine.on line).toList =
    (List.range list.length).filter fun k => (list.map Statement.line)[k]? = some line

theorem files_empty (places : Nat → Place) : Files places [] empty := ⟨rfl, fun line => by simp [empty]⟩

/-- A statement is filed behind those that were filed before. -/
theorem Files.insert (h : x.Files places list) (s : Statement) :
    (x.insert s (places list.length) list.length).Files places (list ++ [s]) := by
  have hsize : x.entries.size = list.length := by
    rw [← Array.length_toList, h.entries, List.length_map, List.length_range]
  refine ⟨?_, fun line => ?_⟩
  · rw [LineIndex.insert, Array.toList_push, h.entries, List.length_append, List.length_singleton,
      List.range_succ, List.map_append, List.map_singleton]
  · -- the positions before the last one keep their lines
    have hbefore : (List.range list.length).filter
          (fun k => decide (((list ++ [s]).map Statement.line)[k]? = some line)) =
        (List.range list.length).filter fun k => decide ((list.map Statement.line)[k]? = some line) := by
      refine List.filter_congr fun k hk => ?_
      rw [List.map_append, List.getElem?_append_left (by simpa using hk)]
    have hlast : ((list ++ [s]).map Statement.line)[list.length]? = some s.line := by simp
    rw [LineIndex.insert, ByLine.on_push, List.length_append, List.length_singleton, List.range_succ,
      List.filter_append, hbefore, List.filter_singleton, hlast, hsize, ← h.onLine line]
    by_cases hline : s.line = line
    · simp [hline]
    · simp [hline]

/-- What is found lives in the place that was looked for, and stands on the line. -/
theorem Files.of_find? (h : x.Files places list) {s : Statement} {place : Place} {n : Nat}
    (hfind : x.find? s place = some n) : n < list.length ∧ places n = place := by
  obtain ⟨entry, hentry, hn⟩ := Option.bind_eq_some_iff.1 hfind
  obtain ⟨k, -, hk⟩ := Array.exists_of_findSome?_eq_some hentry
  obtain ⟨hget, hplace⟩ := Option.filter_eq_some_iff.1 hk
  rw [← Array.getElem?_toList, h.entries, List.getElem?_map, Option.map_eq_some_iff] at hget
  obtain ⟨k', hk', rfl⟩ := hget
  obtain ⟨hlt, rfl⟩ := List.getElem?_eq_some_iff.1 hk'
  cases hn
  simp only [List.length_range] at hlt
  exact ⟨by simpa using hlt, of_decide_eq_true hplace⟩

/-- A listed statement is found in its own place, if no other lives there. -/
theorem Files.find?_listed (h : x.Files places list) (hplaces : Function.Injective places) {n : Nat} {s : Statement}
    (hs : list[n]? = some s) : x.find? s (places n) = some n := by
  have hn : n < list.length := (List.getElem?_eq_some_iff.1 hs).1
  have hmem : n ∈ x.byLine.on s.line := by
    rw [← Array.mem_toList_iff, h.onLine, List.mem_filter]
    exact ⟨List.mem_range.2 hn, by simp [hs]⟩
  have hentry : (x.entries[n]?.filter fun e => decide (e.place = places n)) = some ⟨places n, n⟩ := by
    rw [← Array.getElem?_toList, h.entries, List.getElem?_map, List.getElem?_range hn]
    simp
  cases hfind : x.find? s (places n) with
  | some k => rw [hplaces (h.of_find? hfind).2]
  | none =>
    have hnone := Option.bind_eq_none_iff.1 hfind
    cases hsome : (x.byLine.on s.line).findSome? fun k => x.entries[k]?.filter fun e => decide (e.place = places n) with
    | some entry => simpa using hnone entry hsome
    | none =>
      rw [Array.findSome?_eq_none_iff] at hsome
      rw [hsome n hmem] at hentry
      cases hentry

theorem Files.find?_elsewhere (h : x.Files places list) {s : Statement} {place : Place}
    (hplace : ∀ n < list.length, place ≠ places n) : x.find? s place = none := by
  cases hfind : x.find? s place with
  | none => rfl
  | some n =>
    obtain ⟨hn, hsame⟩ := h.of_find? hfind
    exact absurd hsame.symm (hplace n hn)

end LineIndex

/-! ### Indexes of a list -/

namespace StatementIndex

open ProcProfile.Numbering

/-- An index of the listed statements, by the interpreter's ids or by their places. -/
inductive Recognises (places : Nat → Place) (list : List Statement) : Bool → StatementIndex → Prop
  | native {naturalOf : Std.HashMap UInt32 Int32} (h : Leads naturalOf list) (hids : Distinguished list) :
      Recognises places list true (.native naturalOf)
  | lines {x : LineIndex} (h : x.Files places list) : Recognises places list false (.lines x)

theorem recognises_empty (places : Nat → Place) (root : Statement) :
    Recognises places [] root.nativeId.isSome (empty root) := by
  rw [empty]
  cases root.nativeId.isSome with
  | true => exact .native leads_nil distinguished_nil
  | false => exact .lines (LineIndex.files_empty places)

/-- One more statement is indexed, or refused by its id. -/
theorem endsIn_assign {places : Nat → Place} {list : List Statement} {native : Bool} {index : StatementIndex}
    (h : Recognises places list native index) (hshort : list.length < 2 ^ 31) (s : Statement) :
    EndsIn (Recognises places (list ++ [s]) native)
      (fun e => native = true ∧ Distinguished list ∧ Refused list s e)
      (index.assign s (places list.length) list.length) := by
  cases h with
  | lines h => exact .ok (.lines (h.insert s))
  | @native naturalOf h hids =>
    unfold assign
    dsimp only
    cases hid : s.nativeId with
    | none => exact .error ⟨rfl, hids, .absent (.inl hid)⟩
    | some id =>
      dsimp only
      split_ifs with hzero hseen
      · exact .error ⟨rfl, hids, .absent (.inr (hzero ▸ hid))⟩
      · exact .error ⟨rfl, hids, .repeated hid ((h.seen_iff id).1 hseen)⟩
      · have hs : ∀ e, ¬ Refused list s e := by
          rintro e (habsent | ⟨hid', hseen'⟩)
          · simp [hid, hzero] at habsent
          · rw [hid, Option.some.injEq] at hid'
            subst hid'
            exact hseen ((h.seen_iff id).2 hseen')
        exact .ok (.native (h.insert hid (not_not.1 hseen) hshort) (hids.append_singleton hs))

end StatementIndex

namespace Numbering

open StatementIndex

/-- The number of entries that memory has room for. -/
def maxEntries : Nat := 2 ^ 31

theorem noRoom_iff {n : Nat} : maxMemory < n * entryBytes ↔ maxEntries < n := by
  rw [maxMemory, entryBytes, maxEntries]
  omega

/-- Why the statements of a list are not indexed: one of them is refused, or there are too many of them. -/
inductive Unindexed (list : List Statement) (native : Bool) : Stop WalkError → Prop
  | refused {e : WalkError} (hnative : native = true) (h : FirstRefused (list.take maxEntries) e) :
      Unindexed list native (.error e)
  | outgrown (hids : native = true → Distinguished (list.take maxEntries)) (h : maxEntries < list.length) :
      Unindexed list native (.fault .outOfMemory)

/-- The statements of a list are indexed behind those indexed before, as long as none is refused and there is room. -/
theorem endsIn_indexFrom {places : Nat → Place} {front : List Statement} {native : Bool} {index : StatementIndex}
    (h : Recognises places front native index) (hfront : front.length ≤ maxEntries) (list : List Statement) :
    EndsIn (fun index' => Recognises places (front ++ list) native index' ∧ (front ++ list).length ≤ maxEntries)
      (Unindexed (front ++ list) native) (indexFrom places index front.length list) := by
  induction list generalizing index front with
  | nil =>
    rw [List.append_nil]
    exact .ok ⟨h, hfront⟩
  | cons s rest ih =>
    have htake : front.length = maxEntries → (front ++ s :: rest).take maxEntries = front := fun heq => by
      rw [← heq, List.take_left]
    unfold indexFrom
    split_ifs with hroom
    · rw [noRoom_iff] at hroom
      have hfull : front.length = maxEntries := by omega
      refine .error (.outgrown (fun hnative => ?_) ?_)
      · rw [htake hfull]
        cases h with
        | native _ hids => exact hids
        | lines _ => cases hnative
      · rw [List.length_append, List.length_cons]
        omega
    · rw [noRoom_iff, not_lt] at hroom
      have hassign := endsIn_assign h (Nat.lt_of_succ_le hroom) s
      cases hindex : index.assign s (places front.length) front.length with
      | error e =>
        rw [hindex, endsIn_error_iff] at hassign
        obtain ⟨hnative, hids, hrefused⟩ := hassign
        refine .error (.refused hnative ⟨front, s, rest.take (maxEntries - (front.length + 1)), ?_, hids, hrefused⟩)
        rw [List.take_append, List.take_of_length_le hfront, show maxEntries - front.length =
          maxEntries - (front.length + 1) + 1 by omega, List.take_succ_cons]
      | ok index' =>
        rw [hindex, endsIn_ok_iff] at hassign
        have hlength : (front ++ [s]).length = front.length + 1 := by simp
        have hrest := ih hassign (hlength.trans_le hroom)
        rwa [hlength, List.append_assoc, List.singleton_append] at hrest

end Numbering

end ProcProfile
