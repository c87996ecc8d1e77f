/-
  The chunks counted at a depth beside the chunks that there are.

  A count of chunks divides nodes by the capacity: those of the depth itself, or past the sparse
  depth of a dynamic tree those of the sparse depth (`chunkCount?_eq_ok`). It looks neither at
  whether the tree has chunks nor at whether they begin above the depth.

  The nodes of a chunked depth bear as many numbers as are counted, or one more where the depth
  shares chunks (`ncard_numbersAt`). The nodes of any other depth bear none
  (`numbersAt_eq_empty`), and there the count is right only if it is zero: if the capacity is, or
  if the depth has fewer nodes than a chunk (`countedDepth_div_capacity_eq_zero_iff`).
-/
import ChunkedTree.Proofs.DepthTotals
import ChunkedTree.Proofs.NumbersInUse
import Mathlib.Data.Set.Card

namespace ChunkedTree.Geometry

variable {g : Geometry} {d : Nat}

/-- The numbers that the nodes at `depth` bear. -/
def numbersAt (g : Geometry) (depth : Nat) : Set Nat :=
  {n | ∃ i p, g.levelStart depth ≤ i ∧ i < g.levelStart (depth + 1) ∧ g.locate i = .ok p ∧
    p.number = n}

/-- The nodes at `depth` lie in chunks. -/
def HasChunksAt (g : Geometry) (depth : Nat) : Prop := g.hasCold = true ∧ g.coldBegin ≤ depth

instance (g : Geometry) (depth : Nat) : Decidable (g.HasChunksAt depth) :=
  inferInstanceAs (Decidable (_ ∧ _))

/-! ## What is counted -/

/-- Nothing is counted only where there is nothing to divide by, or less than one chunk to divide.
    The nodes of a depth past the sparse one fill a chunk, for those of the sparse depth do. -/
theorem countedDepth_div_capacity_eq_zero_iff (hw : g.WellFormed) :
    Level.size g.dimensions (g.countedDepth d) / g.capacity = 0 ↔
      g.capacity = 0 ∨ g.factor ^ d < g.capacity := by
  have hfactor : Level.size g.dimensions d = g.factor ^ d := Level.size_eq_pow _ _
  unfold countedDepth
  rw [Nat.div_eq_zero_iff, ← hfactor]
  by_cases hg : g.Grows d
  · have hle : g.capacity ≤ Level.size g.dimensions g.sparseBegin := by
      rw [← capacity_mul_chunksPerSparseDepth hw hg.1]
      exact Nat.le_mul_of_pos_right _ (chunksPerSparseDepth_pos hg.1)
    have hsize : Level.size g.dimensions g.sparseBegin ≤ Level.size g.dimensions d :=
      Nat.le_of_dvd (Level.size_pos _ _) (Level.size_dvd_size (Nat.le_of_lt hg.2))
    rw [if_pos hg]
    omega
  · rw [if_neg hg]

/-! ## Which numbers there are -/

theorem hasCold_of_locate {i : Nat} {p : Placement} (h : g.locate i = .ok p) :
    g.hasCold = true ∧ g.coldIndexBegin ≤ i := by
  unfold locate at h
  simp only [bind_eq_ok_iff, Checked.require_eq_ok_iff, decide_eq_true_eq] at h
  obtain ⟨_, hc, _, hi, _⟩ := h
  exact ⟨hc, hi⟩

theorem numbersAt_eq_empty (h : ¬ g.HasChunksAt d) : g.numbersAt d = ∅ := by
  rw [Set.eq_empty_iff_forall_notMem]
  rintro n ⟨i, p, hfirst, hnext, hp, _⟩
  obtain ⟨hc, hi⟩ := hasCold_of_locate hp
  have hd : g.coldBegin ≤ g.depthOf i := levelStart_le_iff.1 hi
  rw [depthOf_eq_iff.2 ⟨hfirst, hnext⟩] at hd
  exact h ⟨hc, hd⟩

section

variable (hw : g.WellFormed) (hd : g.HasChunksAt d) (hr : g.Reaches d)
include hw hd hr

theorem numbersAt_eq_Icc : g.numbersAt d = Set.Icc (g.firstNumber d) (g.lastNumber d) := by
  ext n
  rw [Set.mem_Icc, ← exists_number_eq_iff hw hd.1 hd.2]
  constructor
  · rintro ⟨i, p, hfirst, hnext, hp, hn⟩
    obtain ⟨_, _, rfl⟩ := (locate_eq_ok_iff hw hd.1).1 hp
    exact ⟨i, depthOf_eq_iff.2 ⟨hfirst, hnext⟩, hn⟩
  · rintro ⟨i, hi, hn⟩
    obtain ⟨hfirst, hnext⟩ := depthOf_eq_iff.1 hi
    exact ⟨i, _, hfirst, hnext, locate_of_depthOf_eq hw hd.1 hd.2 hr hi, hn⟩

/-- A shared depth reaches into one chunk more than its nodes fill. -/
theorem ncard_numbersAt :
    (g.numbersAt d).ncard = g.chunkCount d + if g.Aligned d then 0 else 1 := by
  rw [numbersAt_eq_Icc hw hd hr, Set.ncard_eq_toFinset_card', Set.toFinset_Icc, Nat.card_Icc,
    lastNumber_succ_eq_add hw hd.1 hd.2, Nat.add_assoc, Nat.add_sub_cancel_left]

end

/-- The numbers of a depth are finitely many, so that their `ncard` is their number. -/
theorem finite_numbersAt (hw : g.WellFormed) (hr : g.Reaches d) : (g.numbersAt d).Finite := by
  by_cases hd : g.HasChunksAt d
  · rw [numbersAt_eq_Icc hw hd hr]
    exact Set.finite_Icc _ _
  · rw [numbersAt_eq_empty hd]
    exact Set.finite_empty

end ChunkedTree.Geometry

namespace ChunkedTree

open ChunkedTree.Geometry

variable {c : Config} {g : Geometry} {d : Nat}

/-- **Chunks counted and chunks there are.** For a built tree and a depth with the next one within
    reach a count is told. It is at most the number of different numbers that nodes of the depth
    bear exactly if the depth is chunked, or the capacity is zero or more than the depth has nodes.
    At a chunked depth it is this number, or one less exactly if the depth is not aligned; at any
    other depth no node bears a number. -/
theorem count_le_ncard_numbersAt_iff (hb : c.build = .ok g) (hr : g.Reaches (d + 1)) :
    ∃ count, g.chunkCount? d = .ok count ∧ (g.numbersAt d).Finite ∧
      (count ≤ (g.numbersAt d).ncard ↔
        g.HasChunksAt d ∨ g.capacity = 0 ∨ g.factor ^ d < g.capacity) ∧
      (g.HasChunksAt d → ∃ aligned, g.isAligned? d = .ok aligned ∧
        (g.numbersAt d).ncard = count + if aligned then 0 else 1) ∧
      (¬ g.HasChunksAt d → g.numbersAt d = ∅) := by
  have hw := Config.wellFormed_of_build hb
  have hr' := hr.of_le (Nat.le_succ d)
  have hncard (hd : g.HasChunksAt d) : (g.numbersAt d).ncard =
      Level.size g.dimensions (g.countedDepth d) / g.capacity + if g.Aligned d then 0 else 1 := by
    rw [ncard_numbersAt hw hd hr', chunkCount_eq_div hw hd.1]
  refine ⟨_, chunkCount?_eq_ok hw hr, finite_numbersAt hw hr', ?_, ?_, numbersAt_eq_empty⟩
  · by_cases hd : g.HasChunksAt d
    · rw [hncard hd]
      exact iff_of_true (Nat.le_add_right _ _) (Or.inl hd)
    · rw [numbersAt_eq_empty hd, Set.ncard_empty, Nat.le_zero,
        countedDepth_div_capacity_eq_zero_iff hw, or_iff_right hd]
  · intro hd
    refine ⟨_, isAligned?_of_reaches hw hd.1 hd.2 hr, ?_⟩
    rw [hncard hd]
    simp only [decide_eq_true_eq]

/-- Depth 6 fills four chunks, and its nodes bear five numbers. -/
theorem tornQuadtree_count_le_ncard :
    Config.tornQuadtree.build = .ok tornQuadtree ∧ tornQuadtree.Reaches 7 ∧
      tornQuadtree.chunkCount? 6 = .ok 4 ∧ 4 ≤ (tornQuadtree.numbersAt 6).ncard ∧
      (tornQuadtree.numbersAt 6).ncard = 4 + 1 := by
  have hr : tornQuadtree.Reaches 7 := by decide
  have hchunks : tornQuadtree.HasChunksAt 6 := by decide
  obtain ⟨count, hcount, _, hle, hncard, _⟩ := count_le_ncard_numbersAt_iff tornQuadtree_build hr
  have hcount' : tornQuadtree.chunkCount? 6 = .ok 4 := rfl
  obtain rfl := Except.ok.inj (hcount'.symm.trans hcount)
  obtain ⟨aligned, ha, hnumbers⟩ := hncard hchunks
  have ha' : tornQuadtree.isAligned? 6 = .ok false := rfl
  obtain rfl := Except.ok.inj (ha'.symm.trans ha)
  exact ⟨tornQuadtree_build, hr, hcount, hle.2 (Or.inl hchunks), hnumbers⟩

/-! ## An octree with a capacity, but without chunks -/

def Config.flatOctree : Config := Config.octree 6 0 64

def Geometry.flatOctree : Geometry := Config.flatOctree.geometry .octree 6

/-- Chunks are counted at depth 7, past the base depths, and at depth 5, one of them, though no node
    of either is placed; and so above the chunked depths of a tree that has some. -/
theorem flatOctree_counts_no_chunks :
    Config.flatOctree.build = .ok flatOctree ∧ flatOctree.Reaches 8 ∧
      flatOctree.hasCold = false ∧
      flatOctree.chunkCount? 7 = .ok 32768 ∧ ¬ 32768 ≤ (flatOctree.numbersAt 7).ncard ∧
      flatOctree.chunkCount? 5 = .ok 512 ∧ ¬ 512 ≤ (flatOctree.numbersAt 5).ncard ∧
      Config.alignedQuadtree.build = .ok alignedQuadtree ∧ alignedQuadtree.Reaches 4 ∧
      3 < alignedQuadtree.coldBegin ∧
      alignedQuadtree.chunkCount? 3 = .ok 4 ∧ ¬ 4 ≤ (alignedQuadtree.numbersAt 3).ncard := by
  have hflat : ∀ d, ¬ flatOctree.HasChunksAt d := fun d h => Bool.false_ne_true h.1
  have habove : ¬ alignedQuadtree.HasChunksAt 3 := by decide
  rw [numbersAt_eq_empty (hflat 7), numbersAt_eq_empty (hflat 5), numbersAt_eq_empty habove,
    Set.ncard_empty]
  exact ⟨by decide, by decide, rfl, rfl, by decide, rfl, by decide, alignedQuadtree_build,
    by decide, by decide, rfl, by decide⟩

end ChunkedTree
