/-
  The chunk numbers in use at a depth.

  The range of numbers at a depth is told by two nodes, its first one and its last one. All nodes of
  a depth are placed in one run of chunks, in which numbers grow with the nodes and none is skipped
  (`ChunkRun.exists_numberOf_eq`). So the nodes between the two bear the numbers between theirs, all
  of them and no others (`exists_number_eq_iff`), also where the first or the last chunk reaches
  into a neighbouring depth.
-/
import ChunkedTree.Proofs.DepthNumbering

namespace ChunkedTree.Geometry

variable {g : Geometry} {d i n : Nat}

/-- The nodes at a depth are those from its first one to its last one. -/
theorem depthOf_eq_iff_le_levelLast :
    g.depthOf i = d ↔ g.levelStart d ≤ i ∧ i ≤ g.levelLast d := by
  have hlast := g.levelLast_lt d
  rw [depthOf_eq_iff]
  unfold levelLast at hlast ⊢
  omega

theorem number_mem_range (hi : g.depthOf i = d) :
    g.firstNumber d ≤ (g.place i).number ∧ (g.place i).number ≤ g.lastNumber d := by
  obtain ⟨hfirst, hlast⟩ := depthOf_eq_iff_le_levelLast.1 hi
  exact ⟨number_le_number hfirst ((g.depthOf_levelStart d).trans hi.symm),
    number_le_number hlast (hi.trans (g.depthOf_levelLast d).symm)⟩

theorem exists_number_eq_iff (hw : g.WellFormed) (hc : g.hasCold = true) (hd : g.coldBegin ≤ d) :
    (∃ i, g.depthOf i = d ∧ (g.place i).number = n) ↔
      g.firstNumber d ≤ n ∧ n ≤ g.lastNumber d := by
  constructor
  · rintro ⟨i, hi, rfl⟩
    exact number_mem_range hi
  · rintro ⟨hfirst, hlast⟩
    -- at one depth the number of a node is its number in the run of that depth
    have hrun {i : Nat} (hi : g.depthOf i = d) : (g.place i).number = (g.runAt d).numberOf i := by
      subst hi
      rfl
    have hstart : (g.runAt d).start ≤ g.levelStart d := by
      have hle := runAt_start_le (g := g) (levelStart_le_levelStart hd)
      rwa [depthOf_levelStart] at hle
    rw [firstNumber, hrun (g.depthOf_levelStart d)] at hfirst
    rw [lastNumber, hrun (g.depthOf_levelLast d)] at hlast
    obtain ⟨i, hge, hle, rfl⟩ := ChunkRun.exists_numberOf_eq (runAt_capacity_pos hw hc d) hstart
      (g.levelStart_le_levelLast d) hfirst hlast
    have hi : g.depthOf i = d := depthOf_eq_iff_le_levelLast.2 ⟨hge, hle⟩
    exact ⟨i, hi, hrun hi⟩

end ChunkedTree.Geometry

namespace ChunkedTree

open ChunkedTree.Geometry

variable {c : Config} {g : Geometry} {d : Nat}

/-- **The numbers in use at a depth.** For a built tree and a chunked depth with the next one within
    reach: the range of numbers is told; every node at the depth is placed; a number lies in the
    range exactly if one of these nodes bears it; and numbers do not decrease from node to node. -/
theorem numberRange_iff_borne (hb : c.build = .ok g) (hc : g.hasCold = true) (hd : g.coldBegin ≤ d)
    (hr : g.Reaches (d + 1)) :
    ∃ range, g.numberRange? d = .ok range ∧
      (∀ i, g.levelStart d ≤ i → i < g.levelStart (d + 1) →
        ∃ p, g.locate i = .ok p ∧ p.depth = d) ∧
      (∀ n, range.first ≤ n ∧ n < range.stop ↔
        ∃ i p, g.levelStart d ≤ i ∧ i < g.levelStart (d + 1) ∧ g.locate i = .ok p ∧
          p.number = n) ∧
      ∀ i j p q, g.levelStart d ≤ i → i ≤ j → j < g.levelStart (d + 1) → g.locate i = .ok p →
        g.locate j = .ok q → p.number ≤ q.number := by
  have hw := Config.wellFormed_of_build hb
  have hr' := hr.of_le (Nat.le_succ d)
  refine ⟨_, numberRange?_of_reaches hw hc hd hr, ?_, ?_, ?_⟩
  · intro i hfirst hnext
    have hi := depthOf_eq_iff.2 ⟨hfirst, hnext⟩
    exact ⟨_, locate_of_depthOf_eq hw hc hd hr' hi, hi⟩
  · intro n
    show g.firstNumber d ≤ n ∧ n < g.lastNumber d + 1 ↔ _
    rw [Nat.lt_succ_iff, ← exists_number_eq_iff hw hc hd]
    constructor
    · rintro ⟨i, hi, hn⟩
      obtain ⟨hfirst, hnext⟩ := depthOf_eq_iff.1 hi
      exact ⟨i, _, hfirst, hnext, locate_of_depthOf_eq hw hc hd hr' hi, hn⟩
    · rintro ⟨i, p, hfirst, hnext, hp, hn⟩
      obtain ⟨_, _, rfl⟩ := (locate_eq_ok_iff hw hc).1 hp
      exact ⟨i, depthOf_eq_iff.2 ⟨hfirst, hnext⟩, hn⟩
  · intro i j p q hfirst hij hnext hp hq
    obtain ⟨_, _, rfl⟩ := (locate_eq_ok_iff hw hc).1 hp
    obtain ⟨_, _, rfl⟩ := (locate_eq_ok_iff hw hc).1 hq
    have hi := depthOf_eq_iff.2 ⟨hfirst, Nat.lt_of_le_of_lt hij hnext⟩
    have hj := depthOf_eq_iff.2 ⟨Nat.le_trans hfirst hij, hnext⟩
    exact number_le_number hij (hi.trans hj.symm)

/-- Depth 6 begins in the middle of chunk 1 and ends in the middle of chunk 5: its nodes bear the
    numbers 1 to 5. -/
theorem tornQuadtree_numberRange :
    Config.tornQuadtree.build = .ok tornQuadtree ∧ tornQuadtree.hasCold = true ∧
      tornQuadtree.coldBegin ≤ 6 ∧ tornQuadtree.Reaches 7 ∧
      tornQuadtree.numberRange? 6 = .ok ⟨1, 6⟩ ∧
      (∃ i p, 1365 ≤ i ∧ i < 5461 ∧ tornQuadtree.locate i = .ok p ∧ p.number = 5) ∧
      ¬ ∃ i p, 1365 ≤ i ∧ i < 5461 ∧ tornQuadtree.locate i = .ok p ∧ p.number = 6 := by
  have hd : tornQuadtree.coldBegin ≤ 6 := by decide
  have hr : tornQuadtree.Reaches 7 := by decide
  have hrange : tornQuadtree.numberRange? 6 = .ok ⟨1, 6⟩ := rfl
  obtain ⟨range, hrange', _, hborne, _⟩ := numberRange_iff_borne tornQuadtree_build rfl hd hr
  obtain rfl := Except.ok.inj (hrange.symm.trans hrange')
  exact ⟨tornQuadtree_build, rfl, hd, hr, hrange, (hborne 5).1 (by decide),
    fun h => absurd ((hborne 6).2 h) (by decide)⟩

end ChunkedTree
