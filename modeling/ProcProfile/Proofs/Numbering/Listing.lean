import Mathlib.Tactic
import ProcProfile.Proofs.Numbering.Index

/-!
# What a numbering is built from

The statements of a tree are listed arm by arm.  A numbering is built exactly if there is room for its tables, the
interpreter's ids tell the listed statements apart (where the root has an id), and the interpreter reported as
many statements as are listed.  It then leads every listed statement back to its position, and no other.

* `Numbering.Unnumbered`, `Numbering.Numbers`: why there is no numbering, and what a numbering holds;
* `StatementIndex.Recognises.carries`, `StatementIndex.Recognises.stands`: what an index leads to;
* `Numbering.build_by_listing`: one or the other, for every compiled copy.
-/

namespace ProcProfile

namespace StatementIndex.Recognises

open ProcProfile.Numbering

variable {places : Nat → Place} {list : List Statement} {index : StatementIndex}

/-! ### Lookups -/

/-- With ids, a statement that carries the id of a listed one is taken for it. -/
theorem carries (h : Recognises places list true index) {n : Nat} {c : Statement} (hc : list[n]? = some c)
    {s : Statement} (hs : s.nativeId = c.nativeId) (place : Place) : index.find? s place = some n := by
  cases h with
  | native h hids =>
    obtain ⟨id, hid, -⟩ := hids.exists_id (List.mem_of_getElem? hc)
    rw [find?, hs, hid, Option.bind_some, h id n, List.getElem?_map, hc, Option.map_some, hid]

theorem carries_not (h : Recognises places list true index) {s : Statement}
    (hs : ∀ c ∈ list, s.nativeId ≠ c.nativeId) (place : Place) : index.find? s place = none := by
  cases h with
  | native h hids =>
    rw [find?, Option.bind_eq_none_iff]
    intro id hid
    rw [Option.eq_none_iff_forall_ne_some]
    intro k hk
    obtain ⟨c, hc, hcid⟩ := List.mem_map.1 (List.mem_of_getElem? ((h id k).1 hk))
    exact hs c hc (hid.trans hcid.symm)

/-- Without ids, a listed statement is recognised by where it lives. -/
theorem stands (h : Recognises places list false index) (hplaces : Function.Injective places) {n : Nat}
    {s : Statement} (hs : list[n]? = some s) : index.find? s (places n) = some n := by
  cases h with
  | lines h => exact h.find?_listed hplaces hs

theorem stands_not (h : Recognises places list false index) {s : Statement} {place : Place}
    (hplace : ∀ n < list.length, place ≠ places n) : index.find? s place = none := by
  cases h with
  | lines h => exact h.find?_elsewhere hplace

end StatementIndex.Recognises

namespace Numbering

open StatementIndex

/-! ### Numberings -/

/-- Why the statements of a copy cannot be numbered: its tables would be too long, some of its statements cannot be
indexed, or another number of statements was reported than is listed. -/
inductive Unnumbered (p : Procedure) : Stop WalkError → Prop
  | noRoom (h : maxTableBytes < p.statementCount * entryBytes) : Unnumbered p (.fault .capacityOverflow)
  | noMemory (hroom : p.statementCount * entryBytes ≤ maxTableBytes) (h : maxEntries < p.statementCount) :
      Unnumbered p (.fault .outOfMemory)
  | unindexed {stop : Stop WalkError} (hroom : p.statementCount ≤ maxEntries)
      (h : Unindexed p.body.listing p.body.nativeId.isSome stop) : Unnumbered p stop
  | miscounted (hroom : p.statementCount ≤ maxEntries) (hlength : p.body.listing.length ≤ maxEntries)
      (hids : p.body.nativeId.isSome → Distinguished p.body.listing)
      (h : p.body.listing.length ≠ p.statementCount) :
      Unnumbered p (.error (.statementCountMismatch p.statementCount p.body.listing.length))

/-- A numbering lists the statements of a copy in order, with natural ids from 0 on, and leads back from them. -/
structure Numbers (p : Procedure) (m : Numbering) : Prop where
  /-- All natural ids are below 2³¹, so that 32 bits hold them. -/
  short : p.body.listing.length ≤ 2 ^ 31
  counted : p.body.listing.length = p.statementCount
  distinguished : p.body.nativeId.isSome → Distinguished p.body.listing
  identity : m.identity = p.identity
  pairs : m.nativeIds.zipIdx = (p.body.listing.map Statement.nativeId).zip (List.range p.statementCount)
  lines : m.lines = p.body.listing.map Statement.line
  fingerprints : m.fingerprints = p.body.listing.map Statement.fingerprint
  /-- With ids, every statement that carries the id of a listed one is taken for that one … -/
  carries : p.body.nativeId.isSome → ∀ n c, p.body.listing[n]? = some c → ∀ s place,
    s.nativeId = c.nativeId → m.naturalId s place = .ok n
  /-- … and every other statement is an error. -/
  carries_not : p.body.nativeId.isSome → ∀ s place, (∀ c ∈ p.body.listing, s.nativeId ≠ c.nativeId) →
    m.naturalId s place = .error (.unmappedStatement s.line)
  /-- Without ids, each statement of the tree is recognised where it lives … -/
  stands : p.body.nativeId = none → ∀ n s, p.body.listing[n]? = some s → m.naturalId s (p.places n) = .ok n
  /-- … and every statement elsewhere is an error, however equal it looks. -/
  stands_not : p.body.nativeId = none → ∀ s place, (∀ n < p.body.listing.length, place ≠ p.places n) →
    m.naturalId s place = .error (.unmappedStatement s.line)

theorem Unindexed.unique {list : List Statement} {native : Bool} {stop stop' : Stop WalkError}
    (h : Unindexed list native stop) (h' : Unindexed list native stop') : stop = stop' := by
  cases h with
  | refused hnative hfirst =>
    cases h' with
    | refused _ hfirst' => rw [hfirst.unique hfirst']
    | outgrown hids _ => exact absurd (hids hnative) hfirst.not_distinguished
  | outgrown hids _ =>
    cases h' with
    | refused hnative hfirst => exact absurd (hids hnative) hfirst.not_distinguished
    | outgrown _ _ => rfl

/-- Statements that are not too many and told apart by their ids are indexed. -/
theorem Unindexed.false {list : List Statement} {native : Bool} {stop : Stop WalkError}
    (h : Unindexed list native stop) (hlength : list.length ≤ maxEntries)
    (hids : native = true → Distinguished list) : False := by
  cases h with
  | refused hnative hfirst =>
    rw [List.take_of_length_le hlength] at hfirst
    exact hfirst.not_distinguished (hids hnative)
  | outgrown _ hlong => omega

/-- A table that memory has room for can be asked for. -/
theorem room_of_le {n : Nat} (h : n ≤ maxEntries) : n * entryBytes ≤ maxTableBytes := by
  rw [maxEntries] at h
  rw [entryBytes, maxTableBytes]
  omega

theorem Unnumbered.unique {p : Procedure} {stop stop' : Stop WalkError} (h : Unnumbered p stop)
    (h' : Unnumbered p stop') : stop = stop' := by
  cases h with
  | noRoom hfull =>
    cases h' with
    | noRoom _ => rfl
    | noMemory hroom _ => omega
    | unindexed hroom _ => exact absurd (room_of_le hroom) (by omega)
    | miscounted hroom _ _ _ => exact absurd (room_of_le hroom) (by omega)
  | noMemory hroom hfull =>
    cases h' with
    | noRoom _ => omega
    | noMemory _ _ => rfl
    | unindexed hroom' _ => omega
    | miscounted hroom' _ _ _ => omega
  | unindexed hroom h =>
    cases h' with
    | noRoom _ => exact absurd (room_of_le hroom) (by omega)
    | noMemory _ _ => omega
    | unindexed _ h' => exact h.unique h'
    | miscounted _ hlength hids _ => exact (h.false hlength hids).elim
  | miscounted hroom hlength hids _ =>
    cases h' with
    | noRoom _ => exact absurd (room_of_le hroom) (by omega)
    | noMemory _ _ => omega
    | unindexed _ h' => exact (h'.false hlength hids).elim
    | miscounted _ _ _ _ => rfl

theorem naturalId_of_some {m : Numbering} {s : Statement} {place : Place} {n : Nat}
    (h : m.index.find? s place = some n) : m.naturalId s place = .ok n := by
  rw [naturalId, find?, h]

theorem naturalId_of_none {m : Numbering} {s : Statement} {place : Place} (h : m.index.find? s place = none) :
    m.naturalId s place = .error (.unmappedStatement s.line) := by
  rw [naturalId, find?, h]

/-- A copy is numbered, or there is a reason why not. -/
theorem endsIn_build (p : Procedure) : EndsIn (Numbers p) (Unnumbered p) (build p) := by
  unfold build
  split_ifs with hfull hmemory
  · exact .error (.noRoom hfull)
  · exact .error (.noMemory (not_lt.1 hfull) (noRoom_iff.1 hmemory))
  have hroom : p.statementCount ≤ maxEntries := not_lt.1 fun hlt => hmemory (noRoom_iff.2 hlt)
  dsimp only
  rw [Statement.preorder_eq_listing]
  have hends := endsIn_indexFrom (recognises_empty p.places p.body) (Nat.zero_le _) p.body.listing
  rw [List.nil_append, List.length_nil] at hends
  refine (hends.imp (fun _ h => h) fun stop hstop => .unindexed hroom hstop).bind fun index hindex => ?_
  obtain ⟨hindex, hlength⟩ := hindex
  have hids : p.body.nativeId.isSome → Distinguished p.body.listing := fun hnative => by
    rw [hnative] at hindex
    cases hindex with
    | native _ hids => exact hids
  split_ifs with hcount
  · exact .error (.miscounted hroom hlength hids hcount)
  · have hcount := not_not.1 hcount
    refine .ok ⟨hlength, hcount, hids, rfl, ?_, rfl, rfl, fun hnative n c hc s place hs => ?_,
      fun hnative s place hs => ?_, fun hnone n s hs => ?_, fun hnone s place hplace => ?_⟩
    · rw [List.zipIdx_eq_zip_range', ← List.range_eq_range', List.length_map, hcount]
    · rw [hnative] at hindex
      exact naturalId_of_some (hindex.carries hc hs place)
    · rw [hnative] at hindex
      exact naturalId_of_none (hindex.carries_not hs place)
    · rw [hnone, Option.isSome_none] at hindex
      exact naturalId_of_some (hindex.stands p.places_apart hs)
    · rw [hnone, Option.isSome_none] at hindex
      exact naturalId_of_none (hindex.stands_not hplace)

end Numbering

end ProcProfile
