/-
  How the depths, indexes and counts of a built geometry fit together.

  `Geometry.Consistent` is what queries may rely on: the ranges follow each other, the index of a
  boundary is the start of its level and so the indexes are ordered as the depths are, a chunk has
  as many nodes as the nominal depth, and past the sparse depth of a dynamic tree the chunks hold
  the nodes of a depth exactly. Building gives no other geometry.
-/
import ChunkedTree.Proofs.Rebuild
import ChunkedTree.Proofs.Reopening
import ChunkedTree.Proofs.Seam

namespace ChunkedTree

namespace Geometry

/-- The ends and begins of the ranges and the nominal depth, as depths and as node indexes. -/
def boundaries (g : Geometry) : List (Nat × Nat) :=
  [(g.nullEnd, g.nullIndexEnd), (g.baseEnd, g.baseIndexEnd), (g.coldBegin, g.coldIndexBegin),
    (g.coldEnd, g.coldIndexEnd), (g.sparseBegin, g.sparseIndexBegin),
    (g.nominalDepth, g.nominalIndex)]

/-- The parts of the geometry agree with each other. -/
structure Consistent (g : Geometry) : Prop where
  nullEnd_le_baseEnd : g.nullEnd ≤ g.baseEnd
  baseEnd_eq_coldBegin : g.baseEnd = g.coldBegin
  coldBegin_le_sparseBegin : g.coldBegin ≤ g.sparseBegin
  four_le_baseEnd : 4 ≤ g.baseEnd
  coldEnd_eq_zero_or : g.coldEnd = 0 ∨ g.coldBegin ≤ g.coldEnd
  /-- The exponent of every boundary is a word, and its index is the start of its level. -/
  start?_eq : ∀ b ∈ g.boundaries, Level.start? g.dimensions b.1 = .ok b.2
  coldIndexEnd_eq_zero : g.coldEnd = 0 → g.coldIndexEnd = 0
  index_le_iff : ∀ b ∈ g.boundaries, ∀ b' ∈ g.boundaries, b.2 ≤ b'.2 ↔ b.1 ≤ b'.1
  capacity_eq_pow : g.hasCold = true ∨ g.dynamic = true → g.capacity = g.factor ^ g.nominalDepth
  nominalDepth_le : g.dynamic = true → g.nominalDepth ≤ g.sparseBegin
  chunksPerSparseDepth?_eq : g.chunksPerSparseDepth? = .ok g.chunksPerSparseDepth
  chunksPerSparseDepth_mul_capacity : g.dynamic = true →
    g.chunksPerSparseDepth * g.capacity = g.factor ^ g.sparseBegin
  size?_sparseBegin : Level.size? g.dimensions g.sparseBegin = .ok (g.factor ^ g.sparseBegin)

variable {g : Geometry}

/-- The index of a boundary is where its level starts. -/
theorem index_of_mem_boundaries {b : Nat × Nat} (hb : b ∈ g.boundaries) :
    b.2 = g.levelStart b.1 := by
  simp only [boundaries, List.mem_cons, List.not_mem_nil, or_false] at hb
  rcases hb with rfl | rfl | rfl | rfl | rfl | rfl <;> rfl

theorem index_le_iff_of_mem_boundaries {b b' : Nat × Nat} (hb : b ∈ g.boundaries)
    (hb' : b' ∈ g.boundaries) : b.2 ≤ b'.2 ↔ b.1 ≤ b'.1 := by
  rw [index_of_mem_boundaries hb, index_of_mem_boundaries hb']
  exact Level.start_le_start_iff g.dimensions_pos

section

variable (hw : g.WellFormed)
include hw

theorem reaches_of_mem_boundaries (hword : g.capacity ≤ maxWord) {b : Nat × Nat}
    (hb : b ∈ g.boundaries) : g.Reaches b.1 := by
  have hcold := hw.reaches_sparseBegin.of_le hw.coldBegin_le_sparseBegin
  simp only [boundaries, List.mem_cons, List.not_mem_nil, or_false] at hb
  rcases hb with rfl | rfl | rfl | rfl | rfl | rfl
  · exact hcold.of_le hw.nullEnd_le
  · exact hcold
  · exact hcold
  · exact hw.reaches_coldEnd
  · exact hw.reaches_sparseBegin
  · exact reaches_nominalDepth hword

theorem chunksPerSparseDepth?_of_wellFormed :
    g.chunksPerSparseDepth? = .ok g.chunksPerSparseDepth := by
  unfold chunksPerSparseDepth? chunksPerSparseDepth
  split
  · exact Level.size?_eq_ok_iff.2 ⟨hw.reaches_sparseBegin.of_le (Nat.sub_le _ _), rfl⟩
  · rfl

theorem consistent_of_wellFormed (hword : g.capacity ≤ maxWord) : g.Consistent := by
  constructor
  case nullEnd_le_baseEnd => exact hw.nullEnd_le
  case baseEnd_eq_coldBegin => rfl
  case coldBegin_le_sparseBegin => exact hw.coldBegin_le_sparseBegin
  case four_le_baseEnd => exact hw.minBaseEnd_le
  case coldEnd_eq_zero_or => exact hw.coldEnd_eq_zero_or
  case start?_eq =>
    intro b hb
    rw [index_of_mem_boundaries hb]
    exact start?_of_reaches (reaches_of_mem_boundaries hw hword hb)
  case coldIndexEnd_eq_zero =>
    intro hnone
    unfold coldIndexEnd levelStart
    rw [hnone, Level.start_zero g.dimensions_pos]
  case index_le_iff => exact fun b hb b' hb' => index_le_iff_of_mem_boundaries hb hb'
  case capacity_eq_pow =>
    intro hchunks
    rw [hw.capacity_eq hchunks, Level.size_eq_pow]
    rfl
  case nominalDepth_le => exact hw.nominalDepth_le
  case chunksPerSparseDepth?_eq => exact chunksPerSparseDepth?_of_wellFormed hw
  case chunksPerSparseDepth_mul_capacity =>
    intro hd
    rw [Nat.mul_comm, capacity_mul_chunksPerSparseDepth hw hd, Level.size_eq_pow]
    rfl
  case size?_sparseBegin =>
    exact Level.size?_eq_ok_iff.2 ⟨hw.reaches_sparseBegin, Level.size_eq_pow _ _⟩

end

end Geometry

open ChunkedTree.Geometry

variable {c : Config} {g : Geometry}

/-- **What building establishes.** Whichever way its depths were clamped, given or derived from a
    hint, the ranges, indexes and counts of a built geometry agree with each other. -/
theorem consistent_of_build (hb : c.build = .ok g) : g.Consistent :=
  consistent_of_wellFormed (Config.wellFormed_of_build hb)
    (Nat.le_of_lt_succ (Config.rebuildable_of_build hb).capacity_lt)

/-- The hint places the sparse depth, and the chunks past it hold a depth each. -/
theorem hintedOctree_consistent :
    Config.hintedOctree.build = .ok hintedOctree ∧ hintedOctree.sparseBegin = 12 ∧
      hintedOctree.capacity = 8 ^ 2 ∧ hintedOctree.chunksPerSparseDepth * 64 = 8 ^ 12 := by
  have hbuild : Config.hintedOctree.build = .ok hintedOctree := by decide
  have hg := consistent_of_build hbuild
  exact ⟨hbuild, rfl, hg.capacity_eq_pow (Or.inr rfl), hg.chunksPerSparseDepth_mul_capacity rfl⟩

end ChunkedTree
