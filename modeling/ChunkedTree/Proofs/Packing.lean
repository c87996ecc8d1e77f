/-
  Packing node after node, and placing a node at once.

  `packNext` puts a node behind the one before it: into the next slot of the same chunk while
  there is one, else into the first slot of a new chunk, whose capacity depends on the node's
  depth. Where no chunk is torn off at the seam, every chunk ends where the next one begins
  (`firstNode_succ_of_untorn`), a number names an interval of nodes (`number_eq_iff`), and one
  such step is what two lookups in a row answer (`packNext_place`). Packing from the first chunked
  node on then places every node where its lookup does (`pack_eq_place`).
-/
import ChunkedTree.Proofs.TornChunk

namespace ChunkedTree.Geometry

variable {g : Geometry}

/-! ## Sequential packing -/

/-- Capacity of a chunk that begins with a node at `depth`. -/
def chunkCapacity (g : Geometry) (depth : Nat) : Nat :=
  if g.Grows depth then g.capacity * g.factor ^ (depth - g.sparseBegin) else g.capacity

/-- The first chunked node takes the first slot of the first chunk. -/
def packFirst (g : Geometry) : Placement where
  index := g.coldIndexBegin
  depth := g.coldBegin
  levelStart := g.levelStart g.coldBegin
  chunkStart := g.coldIndexBegin
  offset := 0
  capacity := g.capacity
  number := 0

/-- The node behind the one at `p` takes the next slot of its chunk, or if that chunk is full the
    first slot of the next one. -/
def packNext (g : Geometry) (p : Placement) : Placement :=
  let index := p.index + 1
  let depth := g.depthOf index
  let levelStart := g.levelStart depth
  if p.offset + 1 < p.capacity then
    { p with index, depth, levelStart, offset := p.offset + 1 }
  else
    { index, depth, levelStart, chunkStart := index, offset := 0,
      capacity := g.chunkCapacity depth, number := p.number + 1 }

/-- The placement of the node `steps` behind the first chunked one, one step after the other. -/
def pack (g : Geometry) : Nat → Placement
  | 0 => g.packFirst
  | steps + 1 => g.packNext (g.pack steps)

/-! ## Nodes whose depth can be told -/

/-- The bit length that the depth of the node at `index` is read off is a word. -/
def HasWordLength (g : Geometry) (index : Nat) : Prop :=
  (index * (g.factor - 1) + 1).log2 + 1 ≤ maxWord

theorem HasWordLength.reaches {i j : Nat} (h : g.HasWordLength j) (hij : i ≤ j) :
    g.Reaches (g.depthOf i) := by
  have hlog : g.depthOf j * g.dimensions ≤ (j * (g.factor - 1) + 1).log2 :=
    Nat.div_mul_le_self _ _
  have hreach : g.Reaches (g.depthOf j) := by
    unfold HasWordLength at h
    unfold Reaches
    omega
  exact hreach.of_le (depthOf_le_depthOf hij)

section

variable (hw : g.WellFormed) (hc : g.hasCold = true)
include hw hc

/-! ## The nodes of a chunk -/

theorem offset_lt (i : Nat) : (g.place i).offset < (g.place i).capacity :=
  Nat.mod_lt _ (runAt_capacity_pos hw hc _)

/-- Outside the torn chunk, a node bears a number exactly if it lies in the chunk that the number
    leads to. -/
theorem number_eq_iff {i n : Nat} (hi : g.coldIndexBegin ≤ i) (ht : ¬ g.InTornChunk i) :
    (g.place i).number = n ↔ g.firstNode n ≤ i ∧ i < g.firstNode n + (g.runOf n).capacity := by
  have hfirst := (firstNode_number_iff hw hc hi).2 ht
  have hcap := runOf_number_capacity hw hc hi ht
  have hsum := chunkStart_add_offset hi
  have hlt := offset_lt hw hc i
  constructor
  · intro heq
    rw [← heq, hfirst, hcap]
    omega
  · intro hbounds
    obtain ⟨hle, hlt'⟩ := hbounds
    -- the chunks of two different numbers have no node in common
    rcases Nat.lt_trichotomy (g.place i).number n with hless | heq | hmore
    · have := firstNode_add_capacity_le hw hc hless
      omega
    · exact heq
    · have := firstNode_add_capacity_le hw hc hmore
      omega

omit hw hc in
theorem capacity_place (i : Nat) : (g.place i).capacity = g.chunkCapacity (g.depthOf i) := by
  have hsize (k : Nat) : Level.size g.dimensions k = g.factor ^ k := Level.size_eq_pow _ _
  change (g.runAt (g.depthOf i)).capacity = _
  unfold runAt chunkCapacity
  split
  · rw [sparseRun, hsize]
  · rfl

/-! ## One step -/

section

variable (hs : g.dynamic = true → g.nominalDepth ≤ g.coldBegin)
include hs

/-- If no chunk is torn off, every chunk ends where the next one begins, at the seam too. -/
theorem firstNode_succ_of_untorn (n : Nat) :
    g.firstNode (n + 1) = g.firstNode n + (g.runOf n).capacity := by
  by_cases hn : g.dynamic = true ∧ n + 1 = g.fixedChunks
  · obtain ⟨hd, hseam⟩ := hn
    have hfixed : g.dynamic = true → n < g.fixedChunks := fun _ => by omega
    rw [hseam, firstNode_fixedChunks hw hc hd, ← (fixedEnd_eq_iff hw hc).2 (hs hd),
      fixedEnd_eq_add, ← hseam, firstNode_fixed hfixed, runOf_fixed hfixed, Nat.succ_mul,
      Nat.add_assoc]
    rfl
  · exact firstNode_succ hw hc hn

theorem place_succ_of_room {i : Nat} (hi : g.coldIndexBegin ≤ i)
    (hroom : (g.place i).offset + 1 < (g.place i).capacity) :
    (g.place (i + 1)).chunkStart = (g.place i).chunkStart ∧
      (g.place (i + 1)).offset = (g.place i).offset + 1 ∧
      (g.place (i + 1)).capacity = (g.place i).capacity ∧
      (g.place (i + 1)).number = (g.place i).number := by
  have ht := not_inTornChunk hw hc hs
  have hi' : g.coldIndexBegin ≤ i + 1 := Nat.le_succ_of_le hi
  have hfirst := (firstNode_number_iff hw hc hi).2 (ht i)
  have hcap := runOf_number_capacity hw hc hi (ht i)
  have hsum := chunkStart_add_offset hi
  have hsum' := chunkStart_add_offset hi'
  have hnumber : (g.place (i + 1)).number = (g.place i).number := by
    rw [number_eq_iff hw hc hi' (ht (i + 1)), hfirst, hcap]
    omega
  have hstart : (g.place (i + 1)).chunkStart = (g.place i).chunkStart := by
    rw [← hfirst, ← hnumber]
    exact ((firstNode_number_iff hw hc hi').2 (ht (i + 1))).symm
  refine ⟨hstart, by omega, ?_, hnumber⟩
  rw [← hcap, ← hnumber]
  exact (runOf_number_capacity hw hc hi' (ht (i + 1))).symm

theorem place_succ_of_full {i : Nat} (hi : g.coldIndexBegin ≤ i)
    (hfull : ¬ (g.place i).offset + 1 < (g.place i).capacity) :
    (g.place (i + 1)).chunkStart = i + 1 ∧ (g.place (i + 1)).offset = 0 ∧
      (g.place (i + 1)).number = (g.place i).number + 1 := by
  have ht := not_inTornChunk hw hc hs i
  have hnext : g.firstNode ((g.place i).number + 1) = i + 1 := by
    have hsum := chunkStart_add_offset hi
    have hlt := offset_lt hw hc i
    rw [firstNode_succ_of_untorn hw hc hs, (firstNode_number_iff hw hc hi).2 ht,
      runOf_number_capacity hw hc hi ht]
    omega
  obtain ⟨hnumber, hoffset, hstart, _⟩ := place_firstNode hw hc ((g.place i).number + 1)
  rw [hnext] at hnumber hoffset hstart
  exact ⟨hstart, hoffset, hnumber⟩

/-- The step that packing makes from the placement of a node leads to that of the next node. -/
theorem packNext_place {i : Nat} (hi : g.coldIndexBegin ≤ i) :
    g.packNext (g.place i) = g.place (i + 1) := by
  unfold packNext
  by_cases hroom : (g.place i).offset + 1 < (g.place i).capacity
  · obtain ⟨hstart, hoffset, hcapacity, hnumber⟩ := place_succ_of_room hw hc hs hi hroom
    rw [if_pos hroom]
    exact Placement.ext rfl rfl rfl hstart.symm hoffset.symm hcapacity.symm hnumber.symm
  · obtain ⟨hstart, hoffset, hnumber⟩ := place_succ_of_full hw hc hs hi hroom
    rw [if_neg hroom]
    exact Placement.ext rfl rfl rfl hstart.symm hoffset.symm (capacity_place (i + 1)).symm
      hnumber.symm

/-! ## Lookups and runs of steps -/

omit hc hs in
theorem place_coldIndexBegin : g.place g.coldIndexBegin = g.packFirst := by
  have hdepth : g.depthOf g.coldIndexBegin = g.coldBegin := g.depthOf_levelStart _
  have hg : ¬ g.Grows g.coldBegin := by
    intro hg
    exact Nat.not_lt_of_le hw.coldBegin_le_sparseBegin hg.2
  unfold place
  rw [hdepth, runAt_of_not_grows hg]
  simp only [packFirst, ChunkRun.place, ChunkRun.startOf, ChunkRun.numberOf, fixedRun,
    Nat.sub_self, Nat.zero_div, Nat.zero_mod, Nat.add_zero, Nat.zero_mul]

theorem pack_eq_place (steps : Nat) : g.pack steps = g.place (g.coldIndexBegin + steps) := by
  induction steps with
  | zero => exact (place_coldIndexBegin hw).symm
  | succ steps ih =>
    have hi : g.coldIndexBegin ≤ g.coldIndexBegin + steps := Nat.le_add_right _ _
    rw [pack, ih, packNext_place hw hc hs hi]
    rfl

omit hs in
theorem locate_coldIndexBegin : g.locate g.coldIndexBegin = .ok g.packFirst := by
  rw [← place_coldIndexBegin hw]
  apply locate_of_reaches hw hc (Nat.le_refl _)
  rw [coldIndexBegin, depthOf_levelStart]
  exact hw.reaches_sparseBegin.of_le hw.coldBegin_le_sparseBegin

theorem locate_succ {i : Nat} (hi : g.coldIndexBegin ≤ i) (hword : g.HasWordLength (i + 1)) :
    ∃ p, g.locate i = .ok p ∧ p.index = i ∧ g.locate (i + 1) = .ok (g.packNext p) := by
  refine ⟨g.place i, locate_of_reaches hw hc hi (hword.reaches (Nat.le_succ i)), rfl, ?_⟩
  rw [packNext_place hw hc hs hi]
  exact locate_of_reaches hw hc (Nat.le_succ_of_le hi) (hword.reaches (Nat.le_refl _))

theorem locate_add {steps : Nat} (hword : g.HasWordLength (g.coldIndexBegin + steps)) :
    g.locate (g.coldIndexBegin + steps) = .ok (g.pack steps) := by
  rw [pack_eq_place hw hc hs]
  exact locate_of_reaches hw hc (Nat.le_add_right _ _) (hword.reaches (Nat.le_refl _))

end

end

end ChunkedTree.Geometry

namespace ChunkedTree

open ChunkedTree.Geometry

variable {c : Config} {g : Geometry}

/-- **Lookups and packing.** For a built tree with chunks that are not dynamic, or begin no
    shallower than the nominal depth: the first chunked node lies in the first slot of chunk 0,
    every other one is placed where packing goes on from the node before it, and so each one where
    packing from the first one on puts it. -/
theorem locate_eq_pack (hb : c.build = .ok g) (hc : g.hasCold = true)
    (hs : g.dynamic = false ∨ g.nominalDepth ≤ g.coldBegin) :
    g.locate g.coldIndexBegin = .ok g.packFirst ∧
    (∀ i, g.coldIndexBegin ≤ i → g.HasWordLength (i + 1) →
      ∃ p, g.locate i = .ok p ∧ p.index = i ∧ g.locate (i + 1) = .ok (g.packNext p)) ∧
    (∀ steps, g.HasWordLength (g.coldIndexBegin + steps) →
      g.locate (g.coldIndexBegin + steps) = .ok (g.pack steps)) := by
  have hw := Config.wellFormed_of_build hb
  have hs' : g.dynamic = true → g.nominalDepth ≤ g.coldBegin := by
    intro hd
    rcases hs with hfixed | hle
    · rw [hfixed] at hd
      exact absurd hd Bool.false_ne_true
    · exact hle
  refine ⟨locate_coldIndexBegin hw hc, ?_, ?_⟩
  · intro i hi hword
    exact locate_succ hw hc hs' hi hword
  · intro steps hword
    exact locate_add hw hc hs' hword

theorem alignedQuadtree_locate_eq_pack :
    Config.alignedQuadtree.build = .ok alignedQuadtree ∧ alignedQuadtree.hasCold = true ∧
      alignedQuadtree.nominalDepth ≤ alignedQuadtree.coldBegin ∧
      alignedQuadtree.HasWordLength (alignedQuadtree.coldIndexBegin + 1280) ∧
      alignedQuadtree.locate (alignedQuadtree.coldIndexBegin + 1280) =
        .ok (alignedQuadtree.pack 1280) := by
  have hs : alignedQuadtree.nominalDepth ≤ alignedQuadtree.coldBegin := by decide
  have hword : alignedQuadtree.HasWordLength (alignedQuadtree.coldIndexBegin + 1280) := by
    unfold HasWordLength
    decide
  exact ⟨alignedQuadtree_build, rfl, hs, hword,
    (locate_eq_pack alignedQuadtree_build rfl (Or.inr hs)).2.2 1280 hword⟩

end ChunkedTree
