/-
  The region of a node, told from its depth and told from its index.

  Every region is a range of depths (`Region.Holds`). The ranges follow each other
  (`rank_le_of_holds`), so each depth lies in one of them, and that is the region the depth is told
  to be in (`depthRegion_eq_iff`).

  The boundaries are kept as node indexes too. A node lies before the first one of a level exactly
  if its depth lies above that level (`lt_levelStart_iff`), so the tests that compare indexes come
  to the same ranges: `isNullNode_iff`, `isBaseNode_iff`, `isColdNode_iff`. None of this needs a
  range to have any nodes: without a chunked range all past the base range is out of range, wherever
  the sparse depth may lie.
-/
import ChunkedTree.Proofs.Seam

namespace ChunkedTree

namespace Region

/-- Place of the region in the order of depths. -/
def rank : Region → Nat
  | .null => 0
  | .base => 1
  | .cold => 2
  | .sparse => 3
  | .outOfRange => 4

instance : LE Region := ⟨fun r s => r.rank ≤ s.rank⟩

instance (r s : Region) : Decidable (r ≤ s) := inferInstanceAs (Decidable (r.rank ≤ s.rank))

theorem le_antisymm {r s : Region} : r ≤ s → s ≤ r → r = s := by
  cases r <;> cases s <;> decide

/-- The depth lies in the range that the region stands for. -/
def Holds (g : Geometry) (depth : Nat) : Region → Prop
  | .null => depth < g.nullEnd
  | .base => g.nullEnd ≤ depth ∧ depth < g.baseEnd
  | .cold => g.coldBegin ≤ depth ∧ depth < g.coldEnd ∧ (g.hasSparse = true → depth < g.sparseBegin)
  | .sparse => g.coldBegin ≤ depth ∧ depth < g.coldEnd ∧ g.hasSparse = true ∧ g.sparseBegin ≤ depth
  | .outOfRange => g.baseEnd ≤ depth ∧ g.coldEnd ≤ depth

end Region

namespace Geometry

variable {g : Geometry} {d e i j : Nat}

/-! ## Depths -/

/-- A depth past the base range that lies before the end of the chunked one shows that there is
    one. -/
theorem hasCold_and_lt_iff (hd : g.coldBegin ≤ d) :
    (g.hasCold && decide (d < g.coldEnd)) = true ↔ d < g.coldEnd := by
  unfold hasCold
  rw [Bool.and_eq_true, decide_eq_true_iff, decide_eq_true_iff]
  exact and_iff_right_of_imp (Nat.lt_of_le_of_lt hd)

theorem holds_depthRegion (g : Geometry) (d : Nat) : (g.depthRegion d).Holds g d := by
  unfold depthRegion
  by_cases hnull : d < g.nullEnd
  · rw [if_pos hnull]
    exact hnull
  · rw [if_neg hnull]
    by_cases hbase : d < g.baseEnd
    · rw [if_pos hbase]
      exact ⟨Nat.le_of_not_lt hnull, hbase⟩
    · have hd : g.coldBegin ≤ d := Nat.le_of_not_lt hbase
      rw [if_neg hbase, if_congr (hasCold_and_lt_iff hd) rfl rfl]
      by_cases hcold : d < g.coldEnd
      · simp only [if_pos hcold, Bool.and_eq_true, decide_eq_true_eq]
        by_cases hsparse : g.hasSparse = true ∧ g.sparseBegin ≤ d
        · rw [if_pos hsparse]
          exact ⟨hd, hcold, hsparse⟩
        · rw [if_neg hsparse]
          exact ⟨hd, hcold, fun hs => Nat.lt_of_not_le (fun hle => hsparse ⟨hs, hle⟩)⟩
      · rw [if_neg hcold]
        exact ⟨hd, Nat.le_of_not_lt hcold⟩

section

variable (hn : g.nullEnd ≤ g.baseEnd)
include hn

/-- The ranges follow each other: a deeper one belongs to the same region or a later one. -/
theorem rank_le_of_holds {r s : Region} (hr : r.Holds g d) (hs : s.Holds g e) (hde : d ≤ e) :
    r ≤ s := by
  have hcold : g.coldBegin = g.baseEnd := rfl
  show r.rank ≤ s.rank
  cases r <;> cases s <;> simp only [Region.Holds, Region.rank] at hr hs ⊢ <;> grind

theorem depthRegion_eq_iff {r : Region} : g.depthRegion d = r ↔ r.Holds g d := by
  constructor
  · rintro rfl
    exact g.holds_depthRegion d
  · intro hr
    have hd := g.holds_depthRegion d
    exact Region.le_antisymm (rank_le_of_holds hn hd hr (Nat.le_refl d))
      (rank_le_of_holds hn hr hd (Nat.le_refl d))

theorem depthRegion_eq_cold_or_sparse_iff :
    g.depthRegion d = .cold ∨ g.depthRegion d = .sparse ↔ g.coldBegin ≤ d ∧ d < g.coldEnd := by
  rw [depthRegion_eq_iff hn, depthRegion_eq_iff hn]
  constructor
  · rintro (hcold | hsparse)
    · exact ⟨hcold.1, hcold.2.1⟩
    · exact ⟨hsparse.1, hsparse.2.1⟩
  · rintro ⟨hd, hend⟩
    by_cases hs : g.hasSparse = true ∧ g.sparseBegin ≤ d
    · exact Or.inr ⟨hd, hend, hs⟩
    · exact Or.inl ⟨hd, hend, fun h => Nat.lt_of_not_le (fun hle => hs ⟨h, hle⟩)⟩

end

/-! ## Nodes -/

/-- The branching factor is one that the depth of a node can be told for. -/
theorem depth?_factor (g : Geometry) (i : Nat) : Level.depth? g.factor i = .ok (g.depthOf i) :=
  Level.depth?_branching g.shape.dimensions_eq_two_or_three i

section

variable (hn : g.nullEnd ≤ g.baseEnd)
include hn

theorem nodeRegion_le_nodeRegion (hij : i ≤ j) : g.nodeRegion i ≤ g.nodeRegion j :=
  rank_le_of_holds hn (g.holds_depthRegion _) (g.holds_depthRegion _) (depthOf_le_depthOf hij)

theorem isNullNode_iff : g.isNullNode i = true ↔ g.nodeRegion i = .null := by
  rw [isNullNode, decide_eq_true_iff, nodeRegion, depthRegion_eq_iff hn]
  exact lt_levelStart_iff

theorem isBaseNode_iff : g.isBaseNode i = true ↔ g.nodeRegion i = .base := by
  rw [isBaseNode, Bool.and_eq_true, decide_eq_true_iff, decide_eq_true_iff, nodeRegion,
    depthRegion_eq_iff hn]
  exact and_congr levelStart_le_iff lt_levelStart_iff

theorem isColdNode_iff :
    g.isColdNode i = true ↔ g.nodeRegion i = .cold ∨ g.nodeRegion i = .sparse := by
  have hcold : g.isColdNode i = true ↔
      (g.hasCold = true ∧ g.coldIndexBegin ≤ i) ∧ i < g.coldIndexEnd := by
    unfold isColdNode
    rw [Bool.and_eq_true, Bool.and_eq_true, decide_eq_true_iff, decide_eq_true_iff]
  have hbegin : g.coldIndexBegin ≤ i ↔ g.coldBegin ≤ g.depthOf i := levelStart_le_iff
  have hend : i < g.coldIndexEnd ↔ g.depthOf i < g.coldEnd := lt_levelStart_iff
  rw [hcold, nodeRegion, depthRegion_eq_cold_or_sparse_iff hn, hbegin, hend]
  constructor
  · rintro ⟨⟨_, hd⟩, hlt⟩
    exact ⟨hd, hlt⟩
  · rintro ⟨hd, hlt⟩
    exact ⟨⟨decide_eq_true (Nat.lt_of_le_of_lt hd hlt), hd⟩, hlt⟩

theorem nodeRegion_eq_outOfRange_iff : g.nodeRegion i = .outOfRange ↔
    ¬ (g.isNullNode i = true ∨ g.isBaseNode i = true ∨ g.isColdNode i = true) := by
  rw [isNullNode_iff hn, isBaseNode_iff hn, isColdNode_iff hn]
  cases g.nodeRegion i <;> decide

theorem isStored_depthOf_iff :
    g.isStored (g.depthOf i) = true ↔ g.isBaseNode i = true ∨ g.isColdNode i = true := by
  rw [isBaseNode_iff hn, isColdNode_iff hn]
  unfold isStored nodeRegion
  cases g.depthRegion (g.depthOf i) <;> decide

end

end Geometry

open ChunkedTree.Geometry

variable {c : Config} {g : Geometry}

/-- **The two ways to tell a node's region.** In a built tree the tests of a node's index tell of
    every node what the region of its depth tells: it is a null node, a base node or in the chunked
    range exactly if it lies in the null region, the base region, or the cold or the sparse one, and
    none of these exactly if it is out of range. It is stored exactly if it is a base node or in the
    chunked range. And no node lies in an earlier region than one before it. -/
theorem indexTests_iff_nodeRegion (hb : c.build = .ok g) :
    (∀ i, (g.isNullNode i = true ↔ g.nodeRegion i = .null) ∧
      (g.isBaseNode i = true ↔ g.nodeRegion i = .base) ∧
      (g.isColdNode i = true ↔ g.nodeRegion i = .cold ∨ g.nodeRegion i = .sparse) ∧
      (¬ (g.isNullNode i = true ∨ g.isBaseNode i = true ∨ g.isColdNode i = true) ↔
        g.nodeRegion i = .outOfRange) ∧
      ∃ d, Level.depth? g.factor i = .ok d ∧
        (g.isStored d = true ↔ g.isBaseNode i = true ∨ g.isColdNode i = true)) ∧
    ∀ i j, i ≤ j → g.nodeRegion i ≤ g.nodeRegion j := by
  have hn := (Config.wellFormed_of_build hb).nullEnd_le
  constructor
  · intro i
    exact ⟨isNullNode_iff hn, isBaseNode_iff hn, isColdNode_iff hn,
      (nodeRegion_eq_outOfRange_iff hn).symm, g.depthOf i, g.depth?_factor i,
      isStored_depthOf_iff hn⟩
  · intro i j hij
    exact nodeRegion_le_nodeRegion hn hij

/-- Node 84 is the last base node, node 85 the first chunked one, and node 5592405 the first one
    past the chunked range. -/
theorem tornQuadtree_indexTests :
    Config.tornQuadtree.build = .ok tornQuadtree ∧
      tornQuadtree.nodeRegion 84 = .base ∧ tornQuadtree.isBaseNode 84 = true ∧
      tornQuadtree.nodeRegion 85 = .cold ∧ tornQuadtree.isColdNode 85 = true ∧
      tornQuadtree.nodeRegion 5592405 = .outOfRange ∧ tornQuadtree.isColdNode 5592405 = false ∧
      tornQuadtree.nodeRegion 84 ≤ tornQuadtree.nodeRegion 85 := by
  obtain ⟨htests, horder⟩ := indexTests_iff_nodeRegion tornQuadtree_build
  have hbase : tornQuadtree.nodeRegion 84 = .base := by decide
  have hcold : tornQuadtree.nodeRegion 85 = .cold := by decide
  have hout : tornQuadtree.nodeRegion 5592405 = .outOfRange := by decide
  have hnone := (htests 5592405).2.2.2.1.2 hout
  exact ⟨tornQuadtree_build, hbase, (htests 84).2.1.2 hbase, hcold,
    (htests 85).2.2.1.2 (Or.inl hcold), hout,
    Bool.eq_false_iff.2 (fun h => hnone (Or.inr (Or.inr h))), horder 84 85 (by decide)⟩

end ChunkedTree
