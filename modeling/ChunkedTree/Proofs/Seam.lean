/-
  Where chunks of base size give way to larger ones.

  The sparse depth is the last one with chunks of base size, so these cover the nodes from the
  first chunked one up to the end of that depth, `fixedSpan` nodes in all. The larger chunks are
  numbered from `fixedChunks` on, the number of whole chunks among them
  (`sparseRun_number_eq`). Whole chunks cover all of them exactly if the chunked range begins no
  shallower than the nominal depth (`fixedEnd_eq_iff`); otherwise the last chunk of base size is
  torn off at the seam.
-/
import ChunkedTree.Proofs.ChunkRun

namespace ChunkedTree.Geometry

variable {g : Geometry}

/-- Number of nodes from the first chunked one to the last one at the sparse depth. -/
def fixedSpan (g : Geometry) : Nat := g.levelStart (g.sparseBegin + 1) - g.coldIndexBegin

/-- Number of whole chunks of base size among these nodes. -/
def fixedChunks (g : Geometry) : Nat := g.fixedSpan / g.capacity

/-- Index of the node after the last whole chunk of base size. -/
def fixedEnd (g : Geometry) : Nat := g.fixedRun.startOf g.fixedChunks

theorem fixedEnd_eq_add (g : Geometry) :
    g.fixedEnd = g.coldIndexBegin + g.fixedChunks * g.capacity := rfl

theorem coldIndexBegin_le_fixedEnd (g : Geometry) : g.coldIndexBegin ≤ g.fixedEnd :=
  g.fixedRun.start_le_startOf g.fixedChunks

section

variable (hw : g.WellFormed)
include hw

theorem coldIndexBegin_add_fixedSpan :
    g.coldIndexBegin + g.fixedSpan = g.levelStart (g.sparseBegin + 1) := by
  have hle : g.coldIndexBegin ≤ g.levelStart (g.sparseBegin + 1) :=
    levelStart_le_levelStart (Nat.le_succ_of_le hw.coldBegin_le_sparseBegin)
  unfold fixedSpan
  omega

theorem fixedEnd_le : g.fixedEnd ≤ g.levelStart (g.sparseBegin + 1) := by
  rw [← coldIndexBegin_add_fixedSpan hw, fixedEnd_eq_add]
  exact Nat.add_le_add_left (Nat.div_mul_le_self _ _) _

end

section

variable (hw : g.WellFormed) (hc : g.hasCold = true)
include hw hc

/-- Whole chunks cover the nodes before a depth exactly if the chunked range begins no shallower
    than the depth whose nodes fill one of them, or there are no such nodes. -/
theorem capacity_dvd_levelStart_sub_iff {d : Nat} (hd : g.coldBegin ≤ d) :
    g.capacity ∣ g.levelStart d - g.coldIndexBegin ↔
      g.nominalDepth ≤ g.coldBegin ∨ d = g.coldBegin := by
  obtain ⟨levels, rfl⟩ := Nat.exists_eq_add_of_le hd
  have hspan : g.levelStart (g.coldBegin + levels) - g.coldIndexBegin =
      Level.size g.dimensions g.coldBegin * Level.start g.dimensions levels := by
    unfold coldIndexBegin levelStart
    rw [Level.start_add g.dimensions_pos, Nat.add_sub_cancel_left]
  rw [hspan, capacity_eq_size hw hc, Level.size_dvd_size_mul_start_iff g.dimensions_pos,
    Nat.add_eq_left]

theorem capacity_dvd_fixedSpan_iff : g.capacity ∣ g.fixedSpan ↔ g.nominalDepth ≤ g.coldBegin := by
  have hle := hw.coldBegin_le_sparseBegin
  have hlevels : ¬ g.sparseBegin + 1 = g.coldBegin := by omega
  unfold fixedSpan
  rw [capacity_dvd_levelStart_sub_iff hw hc (Nat.le_succ_of_le hle), or_iff_left hlevels]

/-- The chunks of base size end with the sparse depth exactly if the chunked range begins no
    shallower than the depth whose nodes fill one of them. -/
theorem fixedEnd_eq_iff :
    g.fixedEnd = g.levelStart (g.sparseBegin + 1) ↔ g.nominalDepth ≤ g.coldBegin := by
  rw [← capacity_dvd_fixedSpan_iff hw hc, ← coldIndexBegin_add_fixedSpan hw, fixedEnd_eq_add,
    Nat.add_left_cancel_iff]
  exact (Nat.dvd_iff_div_mul_eq _ _).symm

end

/-! ## The larger chunks -/

section

variable (hw : g.WellFormed) (hc : g.hasCold = true) (hd : g.dynamic = true)
include hw hc hd

omit hw hc in
theorem chunksPerSparseDepth_pos : 0 < g.chunksPerSparseDepth := by
  unfold chunksPerSparseDepth
  rw [if_pos hd]
  exact Level.size_pos _ _

omit hc in
theorem capacity_mul_chunksPerSparseDepth :
    g.capacity * g.chunksPerSparseDepth = Level.size g.dimensions g.sparseBegin := by
  unfold chunksPerSparseDepth
  rw [if_pos hd, hw.capacity_eq (Or.inr hd), ← Level.size_add,
    Nat.add_sub_cancel' (hw.nominalDepth_le hd)]

omit hc in
/-- The chunks at a depth past the sparse depth hold the nodes at that depth. -/
theorem sparseRun_capacity_mul {d : Nat} (h : g.sparseBegin ≤ d) :
    (g.sparseRun d).capacity * g.chunksPerSparseDepth = Level.size g.dimensions d := by
  unfold sparseRun
  rw [Nat.mul_right_comm, capacity_mul_chunksPerSparseDepth hw hd, ← Level.size_add,
    Nat.add_sub_cancel' h]

theorem fixedChunks_eq :
    g.fixedChunks = (g.sparseIndexBegin - g.coldIndexBegin) / g.capacity +
      g.chunksPerSparseDepth := by
  have hspan : g.fixedSpan =
      g.sparseIndexBegin - g.coldIndexBegin + g.capacity * g.chunksPerSparseDepth := by
    have hle : g.coldIndexBegin ≤ g.sparseIndexBegin :=
      levelStart_le_levelStart hw.coldBegin_le_sparseBegin
    unfold fixedSpan
    rw [levelStart_succ, capacity_mul_chunksPerSparseDepth hw hd]
    unfold sparseIndexBegin at hle ⊢
    omega
  unfold fixedChunks
  rw [hspan, Nat.add_mul_div_left _ _ (capacity_pos hw hc)]

/-- The larger chunks are numbered from `fixedChunks` on, every depth with the same number. -/
theorem sparseRun_number_eq {d : Nat} (h : g.sparseBegin < d) :
    (g.sparseRun d).number =
      g.fixedChunks + g.chunksPerSparseDepth * (d - (g.sparseBegin + 1)) := by
  have hdepths : d - g.sparseBegin = d - (g.sparseBegin + 1) + 1 := by omega
  simp only [sparseRun]
  rw [fixedChunks_eq hw hc hd, hdepths, Nat.mul_succ]
  omega

end

end ChunkedTree.Geometry

/-! ## A quadtree with a torn chunk, and one without -/

namespace ChunkedTree

/-- Chunked from depth 4 on, in chunks as large as depth 5. -/
def Config.tornQuadtree : Config :=
  { Config.quadtree 4 12 1024 with sparseDepth := 6, dynamicChunks := true }

/-- Chunked from depth 4 on, in chunks as large as depth 2. -/
def Config.alignedQuadtree : Config :=
  { Config.quadtree 4 12 16 with sparseDepth := 5, dynamicChunks := true }

namespace Geometry

def tornQuadtree : Geometry := Config.tornQuadtree.geometry .quadtree 6

def alignedQuadtree : Geometry := Config.alignedQuadtree.geometry .quadtree 5

theorem tornQuadtree_build : Config.tornQuadtree.build = .ok tornQuadtree := by decide

theorem alignedQuadtree_build : Config.alignedQuadtree.build = .ok alignedQuadtree := by decide

end Geometry

end ChunkedTree
