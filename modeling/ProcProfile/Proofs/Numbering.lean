import Mathlib.Tactic
import ProcProfile.Numbering.Cache
import ProcProfile.Proofs.Numbering.Listing

/-!
# Numberings recognise their own statements

A numbering that could be built gives every statement of its tree the position in pre-order, whichever way
it recognises statements.  A cache hands out what would be built.

* `Numbering.build_eq_ok`: what a numbering holds;
* `Numbering.naturalId_of_build`: the natural id of the statement at a position is the position;
* `NumberingCache.Faithful`: every cached numbering is the one of its copy.
-/

namespace ProcProfile

namespace Numbering

/-- What the numbering of a copy holds. -/
theorem build_eq_ok {p : Procedure} {m : Numbering} (h : build p = .ok m) :
    indexFrom p.places (.empty p.body) 0 p.body.preorder = .ok m.index ∧ m.identity = p.identity ∧
      m.lines = p.body.preorder.map Statement.line ∧
      m.fingerprints = p.body.preorder.map Statement.fingerprint := by
  unfold build at h
  split_ifs at h
  obtain ⟨index, hindex, h⟩ := bind_eq_ok_iff.1 h
  dsimp only at h
  split_ifs at h
  cases h
  exact ⟨hindex, rfl, rfl, rfl⟩

theorem length_lines_of_build {p : Procedure} {m : Numbering} (h : build p = .ok m) :
    m.lines.length = p.body.count := by
  obtain ⟨-, -, hlines, -⟩ := build_eq_ok h
  rw [hlines, List.length_map, Statement.length_preorder]

theorem line_of_build {p : Procedure} {m : Numbering} (h : build p = .ok m) {i : Nat} {s : Statement}
    (hs : p.body.preorder[i]? = some s) : m.lines[i]? = some s.line := by
  obtain ⟨-, -, hlines, -⟩ := build_eq_ok h
  rw [hlines, List.getElem?_map, hs, Option.map_some]

/-- The natural id of a statement of the numbered tree is its position. -/
theorem naturalId_of_build {p : Procedure} {m : Numbering} (h : build p = .ok m) {i : Nat} {s : Statement}
    (hs : p.body.preorder[i]? = some s) : m.naturalId s (p.places i) = .ok i := by
  have hnumbers := endsIn_build p
  rw [h, endsIn_ok_iff] at hnumbers
  rw [Statement.preorder_eq_listing] at hs
  cases hnative : p.body.nativeId with
  | none => exact hnumbers.stands hnative i s hs
  | some id => exact hnumbers.carries (by rw [hnative]; rfl) i s hs s _ rfl

/-- A statement of the numbered tree is recognised by its position. -/
theorem find?_of_build {p : Procedure} {m : Numbering} (h : build p = .ok m) {i : Nat} {s : Statement}
    (hs : p.body.preorder[i]? = some s) : m.find? s (p.places i) = some i := by
  have hid := naturalId_of_build h hs
  unfold naturalId at hid
  cases hfind : m.find? s (p.places i) with
  | none =>
    rw [hfind] at hid
    cases hid
  | some k =>
    rw [hfind] at hid
    cases hid
    rfl

end Numbering

namespace NumberingCache

/-- Every entry of a cache is the numbering of the copy with its handle. -/
def Faithful (copy : Handle → Procedure) (c : NumberingCache) : Prop :=
  ∀ e ∈ c.entries, Numbering.build (copy e.handle) = .ok e.numbering

theorem faithful_new (copy : Handle → Procedure) : new.Faithful copy := by
  intro e he
  cases he

theorem Faithful.invalidate {copy : Handle → Procedure} {c : NumberingCache} (h : c.Faithful copy)
    (unit : Option UnitKey) : (c.invalidate unit).1.Faithful copy := by
  intro e he
  cases unit with
  | none => cases he
  | some key => exact h e (List.mem_of_mem_filter he)

/-- A request leaves a faithful cache, and answers with the numbering of the copy. -/
theorem Faithful.buildOrGet {copy : Handle → Procedure} {c : NumberingCache} (h : c.Faithful copy)
    {handle : Handle} (hhandle : (copy handle).handle = handle) :
    (c.buildOrGet (copy handle)).1.Faithful copy ∧
      (c.buildOrGet (copy handle)).2 = Numbering.build (copy handle) := by
  unfold NumberingCache.buildOrGet
  rw [hhandle]
  dsimp only
  split
  · rename_i entry hentry
    have hmem : entry ∈ c.entries := List.mem_of_find?_eq_some hentry
    have hsame : entry.handle = handle := by simpa using List.find?_some hentry
    refine ⟨fun e he => ?_, by rw [← h entry hmem, hsame]⟩
    obtain ⟨e', he', rfl⟩ := List.mem_map.1 he
    split_ifs <;> exact h e' he'
  · cases hbuild : Numbering.build (copy handle) with
    | error e => exact ⟨h, rfl⟩
    | ok m =>
      refine ⟨fun e he => ?_, rfl⟩
      dsimp only [evict] at he
      rcases List.mem_cons.1 (List.mem_of_mem_filter he) with rfl | he
      · exact hbuild
      · exact h e he

end NumberingCache

end ProcProfile
