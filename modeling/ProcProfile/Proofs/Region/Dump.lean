import Mathlib.Data.Prod.Lex
import Mathlib.Tactic
import ProcProfile.Proofs.Record
import ProcProfile.Proofs.Region.Chunks

/-!
# Dumps

A dump lists the chunks of a region in a fixed order.  It depends on the chunks alone, and not on the slots
that they are in.

* `ChunkKey.rank`, `ChunkKey.before_iff`: the order of dumps;
* `Region.mem_dump`, `Region.pairwise_rank_dump`: a dump lists every chunk once, in order;
* `Region.dump_congr`: regions with the same chunks have the same dump.
-/

namespace ProcProfile

namespace ChunkKey

/-- Where a chunk stands in a dump: database, unit, version, location and chunk number, the first one
that differs deciding. -/
def rank (key : ChunkKey) : ℕ ×ₗ ℕ ×ₗ ℕ ×ₗ ℕ ×ₗ ℤ :=
  toLex (key.identity.ownerDb.toNat, toLex (key.identity.unitId.toNat,
    toLex (key.identity.version.toNat, toLex (key.identity.location.toNat, key.number.toInt))))

theorem before_iff {a b : ChunkKey} : a.before b = true ↔ a.rank ≤ b.rank := by
  unfold before rank
  simp only [Prod.Lex.toLex_le_toLex, ne_eq, ← UInt32.toNat_inj, ← UInt64.toNat_inj]
  split_ifs with hdb hunit hversion hlocation
  all_goals simp only [decide_eq_true_eq, UInt32.lt_iff_toNat_lt, UInt64.lt_iff_toNat_lt,
    Int16.le_iff_toInt_le]
  all_goals omega

theorem rank_nth_lt (id : Identity) {m m' : Nat} (hlt : m < m') (hm : m' < 2 ^ 15) :
    (nth id m).rank < (nth id m').rank := by
  have hint := toInt_number_nth id (hlt.trans hm)
  have hint' := toInt_number_nth id hm
  simp [rank, Prod.Lex.toLex_lt_toLex, hint, hint', hlt]

/-- Two chunks that stand at one place are the same, if nothing fills their keys. -/
theorem rank_inj {a b : ChunkKey} (hfiller : a.filler = b.filler) (h : a.rank = b.rank) : a = b := by
  obtain ⟨⟨unit, db, version, location⟩, number, filler⟩ := a
  obtain ⟨⟨unit', db', version', location'⟩, number', filler'⟩ := b
  simp only [rank, toLex_inj, Prod.mk.injEq, UInt32.toNat_inj, UInt64.toNat_inj, Int16.toInt_inj] at h
  obtain ⟨rfl, rfl, rfl, rfl, rfl⟩ := h
  exact congrArg _ hfiller

end ChunkKey

/-- Lists in the strict order of a rank that have the same members are equal. -/
theorem eq_of_pairwise_rank {α β : Type} [Preorder β] {rank : α → β} {l l' : List α}
    (hl : l.Pairwise fun c d => rank c < rank d) (hl' : l'.Pairwise fun c d => rank c < rank d)
    (h : ∀ c, c ∈ l ↔ c ∈ l') : l = l' := by
  have hnodup : ∀ {k : List α}, k.Pairwise (fun c d => rank c < rank d) → k.Nodup :=
    fun hk => hk.imp fun {c d} hlt he => (he ▸ hlt).false
  refine List.Perm.eq_of_pairwise (fun c d _ _ hcd hdc => absurd hcd (lt_asymm hdc)) hl hl' ?_
  exact (List.perm_ext_iff_of_nodup (hnodup hl) (hnodup hl')).2 h

namespace Region

variable {r : Region}

/-- A dump lists the chunks of a region. -/
theorem mem_dump (h : r.Sound) {c : Chunk} : c ∈ r.dump ↔ r.chunk? c.key = some c.records := by
  rw [dump, List.mem_mergeSort, List.mem_map, chunk?_eq_some_iff h]
  constructor
  · rintro ⟨⟨key, page⟩, hmem, rfl⟩
    obtain ⟨i, hi, hvalue⟩ := Table.mem_entries.1 hmem
    exact ⟨i, hi, congrArg Page.records hvalue⟩
  · rintro ⟨i, hi, hpage⟩
    exact ⟨(c.key, (r.chunks.get i).value), Table.mem_entries.2 ⟨i, hi, rfl⟩, congrArg _ hpage⟩

/-- A dump is strictly increasing, if nothing fills the keys of the chunks. -/
theorem pairwise_rank_dump (h : r.Sound)
    (hfiller : ∀ key page, r.chunk? key = some page → key.filler = 0) :
    r.dump.Pairwise fun c d => c.key.rank < d.key.rank := by
  have hsorted : r.dump.Pairwise fun c d => c.key.before d.key = true := by
    refine List.pairwise_mergeSort (fun a b c hab hbc => ?_) (fun a b => ?_) _
    · exact ChunkKey.before_iff.2 ((ChunkKey.before_iff.1 hab).trans (ChunkKey.before_iff.1 hbc))
    · rw [Bool.or_eq_true, ChunkKey.before_iff, ChunkKey.before_iff]
      exact le_total _ _
  have hkeys : (r.dump.map Chunk.key).Nodup := by
    refine (((List.mergeSort_perm _ _).map Chunk.key).nodup_iff).2 ?_
    rw [List.map_map]
    exact Table.nodup_keys_entries h.chunks.sound
  refine (hsorted.and (List.pairwise_map.1 hkeys)).imp_of_mem fun {c d} hc hd hcd => ?_
  refine lt_of_le_of_ne (ChunkKey.before_iff.1 hcd.1) fun he => hcd.2 (ChunkKey.rank_inj ?_ he)
  rw [hfiller _ _ ((mem_dump h).1 hc), hfiller _ _ ((mem_dump h).1 hd)]

/-- Regions with the same chunks have the same dump. -/
theorem dump_congr {r' : Region} (h : r.Sound) (h' : r'.Sound)
    (hfiller : ∀ key page, r.chunk? key = some page → key.filler = 0) (he : r'.chunk? = r.chunk?) :
    r'.dump = r.dump := by
  refine eq_of_pairwise_rank (pairwise_rank_dump h' (he ▸ hfiller)) (pairwise_rank_dump h hfiller) fun c => ?_
  rw [mem_dump h', mem_dump h, he]

end Region

end ProcProfile
