/-
  A located node lies in its level and in its chunk.

  `Encloses` says what a placement tells of a node: the level holds it, the chunk holds it, and the
  chunk's first node is placed at the start of the same chunk. That node may lie at a shallower
  depth than the node itself, where chunks of base size cross level boundaries; but larger chunks
  start anew with each depth, so either way the two lie in one run of chunks
  (`runAt_depthOf_chunkStart`), and in a run a chunk's first node bears the number of the chunk.
-/
import ChunkedTree.Proofs.Packing
import ChunkedTree.Proofs.RoundTrip

namespace ChunkedTree

/-- In a run, the first node of a node's chunk is placed at the start of this chunk. -/
theorem ChunkRun.place_chunkStart {r : ChunkRun} (hr : 0 < r.capacity) (i d l d' l' : Nat) :
    (r.place (r.place i d l).chunkStart d' l').StartsChunkOf (r.place i d l) := by
  have hnumber : r.numberOf (r.startOf (r.numberOf i)) = r.numberOf i :=
    numberOf_startOf hr (Nat.le_add_right _ _)
  exact ⟨congrArg r.startOf hnumber, hnumber, rfl, r.startOf_sub_start_mod _⟩

namespace Geometry

variable {g : Geometry} {i : Nat}

/-- The placement encloses the node at `index` in a level and in a chunk. -/
structure Encloses (g : Geometry) (index : Nat) (p : Placement) : Prop where
  index_eq : p.index = index
  levelStart_eq : p.levelStart = (g.factor ^ p.depth - 1) / (g.factor - 1)
  levelStart_le : p.levelStart ≤ index
  lt_nextLevelStart : index < (g.factor ^ (p.depth + 1) - 1) / (g.factor - 1)
  chunkStart_add_offset : p.chunkStart + p.offset = index
  offset_lt : p.offset < p.capacity
  coldIndexBegin_le : g.coldIndexBegin ≤ p.chunkStart
  /-- Larger chunks do not cross level boundaries. -/
  levelStart_le_chunkStart :
    g.dynamic = true → g.sparseBegin < p.depth → p.levelStart ≤ p.chunkStart
  /-- The chunk's first node is placed at the start of the same chunk. -/
  startsChunkOf : ∃ q, g.locate p.chunkStart = .ok q ∧ q.StartsChunkOf p

/-- A level start is the geometric sum of the branching factor. -/
theorem levelStart_eq_div (g : Geometry) (d : Nat) :
    g.levelStart d = (g.factor ^ d - 1) / (g.factor - 1) := by
  unfold levelStart Level.start
  rw [Level.size_eq_pow]
  rfl

/-! ## The start of a node's chunk -/

theorem coldIndexBegin_le_runAt_start {d : Nat} (hd : g.coldBegin ≤ d) :
    g.coldIndexBegin ≤ (g.runAt d).start := by
  unfold runAt
  split
  · exact levelStart_le_levelStart hd
  · exact Nat.le_refl _

theorem coldIndexBegin_le_chunkStart (hi : g.coldIndexBegin ≤ i) :
    g.coldIndexBegin ≤ (g.place i).chunkStart :=
  Nat.le_trans (coldIndexBegin_le_runAt_start (levelStart_le_iff.1 hi))
    (ChunkRun.start_le_startOf _ _)

theorem levelStart_le_chunkStart_of_grows (hg : g.Grows (g.depthOf i)) :
    g.levelStart (g.depthOf i) ≤ (g.place i).chunkStart := by
  unfold place
  rw [runAt_of_grows hg]
  exact (g.sparseRun _).start_le_startOf _

/-- A chunk's first node lies in the run of its other nodes: in larger chunks at the same depth, and
    in chunks of base size no deeper, and so in chunks of base size too. -/
theorem runAt_depthOf_chunkStart (hi : g.coldIndexBegin ≤ i) :
    g.runAt (g.depthOf (g.place i).chunkStart) = g.runAt (g.depthOf i) := by
  have hle : g.depthOf (g.place i).chunkStart ≤ g.depthOf i := depthOf_le_depthOf (chunkStart_le hi)
  by_cases hg : g.Grows (g.depthOf i)
  · have hge := levelStart_le_iff.1 (levelStart_le_chunkStart_of_grows hg)
    rw [Nat.le_antisymm hle hge]
  · have hg' : ¬ g.Grows (g.depthOf (g.place i).chunkStart) :=
      fun h => hg ⟨h.1, Nat.lt_of_lt_of_le h.2 hle⟩
    rw [runAt_of_not_grows hg, runAt_of_not_grows hg']

section

variable (hw : g.WellFormed) (hc : g.hasCold = true)
include hw hc

theorem place_chunkStart (hi : g.coldIndexBegin ≤ i) :
    (g.place (g.place i).chunkStart).StartsChunkOf (g.place i) := by
  have hrun : g.place (g.place i).chunkStart = (g.runAt (g.depthOf i)).place (g.place i).chunkStart
      (g.depthOf (g.place i).chunkStart) (g.levelStart (g.depthOf (g.place i).chunkStart)) := by
    rw [← runAt_depthOf_chunkStart hi]
    rfl
  rw [hrun]
  exact ChunkRun.place_chunkStart (runAt_capacity_pos hw hc _) i _ _ _ _

theorem encloses_place (hi : g.coldIndexBegin ≤ i) (hr : g.Reaches (g.depthOf i)) :
    g.Encloses i (g.place i) := by
  obtain ⟨hfirst, hnext⟩ := (depthOf_eq_iff (g := g) (i := i)).1 rfl
  constructor
  case index_eq => rfl
  case levelStart_eq => exact g.levelStart_eq_div _
  case levelStart_le => exact hfirst
  case lt_nextLevelStart => exact Nat.lt_of_lt_of_eq hnext (g.levelStart_eq_div _)
  case chunkStart_add_offset => exact chunkStart_add_offset hi
  case offset_lt => exact offset_lt hw hc i
  case coldIndexBegin_le => exact coldIndexBegin_le_chunkStart hi
  case levelStart_le_chunkStart => exact fun hd h => levelStart_le_chunkStart_of_grows ⟨hd, h⟩
  case startsChunkOf =>
    refine ⟨_, locate_of_reaches hw hc (coldIndexBegin_le_chunkStart hi) ?_,
      place_chunkStart hw hc hi⟩
    exact hr.of_le (depthOf_le_depthOf (chunkStart_le hi))

end

end Geometry

open ChunkedTree.Geometry

variable {c : Config} {g : Geometry} {i : Nat}

/-- **A located node lies in its level and its chunk.** For a built tree with chunks, every chunked
    node whose bit length is a word is placed, and its placement encloses it: its level and its
    chunk hold it, its chunk is a chunked one and, where chunks grow, does not reach into the level
    above, and the chunk's first node is placed at the start of the same chunk. -/
theorem locate_encloses (hb : c.build = .ok g) (hc : g.hasCold = true)
    (hi : g.coldIndexBegin ≤ i) (hword : g.HasWordLength i) :
    ∃ p, g.locate i = .ok p ∧ g.Encloses i p := by
  have hw := Config.wellFormed_of_build hb
  have hr := hword.reaches (Nat.le_refl i)
  exact ⟨_, locate_of_reaches hw hc hi hr, encloses_place hw hc hi hr⟩

/-- Node 1400 lies at depth 6, and its chunk begins with node 1109 at depth 5. -/
theorem tornQuadtree_locate_encloses :
    Config.tornQuadtree.build = .ok tornQuadtree ∧ tornQuadtree.hasCold = true ∧
      tornQuadtree.coldIndexBegin ≤ 1400 ∧ tornQuadtree.HasWordLength 1400 ∧
      ∃ p q, tornQuadtree.locate 1400 = .ok p ∧ tornQuadtree.Encloses 1400 p ∧ p.depth = 6 ∧
        p.chunkStart = 1109 ∧ tornQuadtree.locate 1109 = .ok q ∧ q.StartsChunkOf p ∧
        q.depth = 5 := by
  have hi : tornQuadtree.coldIndexBegin ≤ 1400 := by decide
  have hword : tornQuadtree.HasWordLength 1400 := by
    unfold HasWordLength
    decide
  obtain ⟨p, hp, hencloses⟩ := locate_encloses tornQuadtree_build rfl hi hword
  obtain ⟨q, hq, hstarts⟩ := hencloses.startsChunkOf
  have hp' : tornQuadtree.locate 1400 = .ok ⟨1400, 6, 1365, 1109, 291, 1024, 1⟩ := rfl
  obtain rfl := Except.ok.inj (hp'.symm.trans hp)
  have hq' : tornQuadtree.locate 1109 = .ok ⟨1109, 5, 341, 1109, 0, 1024, 1⟩ := rfl
  obtain rfl := Except.ok.inj (hq'.symm.trans hq)
  exact ⟨tornQuadtree_build, rfl, hi, hword, _, _, hp, hencloses, rfl, rfl, hq, hstarts, rfl⟩

end ChunkedTree
