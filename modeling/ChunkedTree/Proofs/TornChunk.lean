/-
  Chunk numbers of nodes, and the chunk that is torn off at the seam.

  In a dynamic tree whose chunked range begins above the nominal depth, the last chunk of base
  size is cut off by the first larger one, and the two bear the same number. Nodes outside this
  torn chunk lie in the chunk that their number names (`firstNode_number_iff`).

  `SeamFits` says for which trees a number names one chunk, and number and offset together one
  node: for all that are not dynamic, that have no depth past the sparse one within reach, or
  whose chunked range begins at the nominal depth or deeper.
-/
import ChunkedTree.Proofs.NumberLookup

namespace ChunkedTree.Geometry

variable {g : Geometry}

/-- The node lies in the part of a base-size chunk that is left over at the seam. -/
def InTornChunk (g : Geometry) (index : Nat) : Prop :=
  g.dynamic = true ∧ g.fixedEnd ≤ index ∧ index < g.levelStart (g.sparseBegin + 1)

instance (g : Geometry) (index : Nat) : Decidable (g.InTornChunk index) :=
  inferInstanceAs (Decidable (_ ∧ _))

/-- Nodes with the same chunk number lie in the same chunk. -/
def NumbersNameChunks (g : Geometry) : Prop :=
  ∀ i j p q, g.locate i = .ok p → g.locate j = .ok q → p.number = q.number →
    p.chunkStart = q.chunkStart

/-- Chunk number and offset together tell the node. -/
def SlotsNameNodes (g : Geometry) : Prop :=
  ∀ i j p q, g.locate i = .ok p → g.locate j = .ok q → p.number = q.number →
    p.offset = q.offset → i = j

/-- The chunks of base size fill the depths they are made for: nothing is left over at the seam,
    or no node past it can be located. -/
def SeamFits (g : Geometry) : Prop :=
  g.dynamic = true → g.Reaches (g.sparseBegin + 1) → g.nominalDepth ≤ g.coldBegin

instance (g : Geometry) : Decidable g.SeamFits := inferInstanceAs (Decidable (_ → _ → _))

/-! ## The number of a node -/

/-- Nodes before the seam lie in chunks of base size. -/
theorem not_grows_of_lt {i : Nat} (h : i < g.levelStart (g.sparseBegin + 1)) :
    ¬ g.Grows (g.depthOf i) := by
  intro hg
  rw [lt_levelStart_iff] at h
  have := hg.2
  omega

theorem chunkStart_add_offset {i : Nat} (hi : g.coldIndexBegin ≤ i) :
    (g.place i).chunkStart + (g.place i).offset = i :=
  ChunkRun.startOf_numberOf_add_offset (runAt_start_le hi)

theorem chunkStart_le {i : Nat} (hi : g.coldIndexBegin ≤ i) : (g.place i).chunkStart ≤ i := by
  have := chunkStart_add_offset hi
  omega

theorem firstNode_of_runOf_eq {i : Nat}
    (h : g.runOf (g.place i).number = g.runAt (g.depthOf i)) :
    g.firstNode (g.place i).number = (g.place i).chunkStart := by
  unfold firstNode
  rw [h]
  rfl

section

variable (hw : g.WellFormed) (hc : g.hasCold = true)
include hw hc

/-- A node in a larger chunk bears a number that names its depth and a place in it. -/
theorem exists_place_of_grows {i : Nat} (hg : g.Grows (g.depthOf i)) :
    ∃ q r, r < g.chunksPerSparseDepth ∧ g.depthOf i = g.sparseBegin + 1 + q ∧
      (g.place i).number = g.fixedChunks + (g.chunksPerSparseDepth * q + r) := by
  obtain ⟨hd, hlt⟩ := hg
  obtain ⟨q, hq⟩ := Nat.exists_eq_add_of_le (Nat.succ_le_of_lt hlt)
  have hinside : i - g.levelStart (g.depthOf i) <
      (g.sparseRun (g.depthOf i)).capacity * g.chunksPerSparseDepth := by
    have := (depthOf_eq_iff (g := g) (i := i)).1 rfl
    rw [sparseRun_capacity_mul hw hd (Nat.le_of_lt hlt)]
    rw [levelStart_succ] at this
    omega
  refine ⟨q, (i - g.levelStart (g.depthOf i)) / (g.sparseRun (g.depthOf i)).capacity,
    Nat.div_lt_of_lt_mul hinside, hq, ?_⟩
  change (g.runAt (g.depthOf i)).numberOf i = _
  rw [runAt_of_grows ⟨hd, hlt⟩, ChunkRun.numberOf, ← Nat.add_assoc]
  congr 1
  rw [hq]
  exact sparseRun_number_add hd hw hc

/-- The number of a node in a base-size chunk is that of a whole chunk exactly if the node lies
    before the end of the last one. -/
theorem number_lt_fixedChunks_iff {i : Nat} (hi : g.coldIndexBegin ≤ i)
    (hg : ¬ g.Grows (g.depthOf i)) : (g.place i).number < g.fixedChunks ↔ i < g.fixedEnd := by
  have hle : g.fixedEnd ≤ i ↔ g.fixedChunks ≤ g.fixedRun.numberOf i :=
    ChunkRun.startOf_le_iff (capacity_pos hw hc) (Nat.zero_le _) hi
  have hnumber : (g.place i).number = g.fixedRun.numberOf i := by
    change (g.runAt (g.depthOf i)).numberOf i = _
    rw [runAt_of_not_grows hg]
  omega

/-- Outside the torn chunk, a node's number names the run of its depth. -/
theorem runOf_number {i : Nat} (hi : g.coldIndexBegin ≤ i) (ht : ¬ g.InTornChunk i) :
    g.runOf (g.place i).number = g.runAt (g.depthOf i) := by
  by_cases hg : g.Grows (g.depthOf i)
  · obtain ⟨q, r, hr, hdepth, hnumber⟩ := exists_place_of_grows hw hc hg
    rw [hnumber, runOf_sparse hg.1 hr, runAt_of_grows hg, hdepth]
  · rw [runAt_of_not_grows hg]
    apply runOf_fixed
    intro hd
    have hshallow : i < g.levelStart (g.sparseBegin + 1) := by
      rw [lt_levelStart_iff]
      by_contra hcon
      exact hg ⟨hd, by omega⟩
    rw [number_lt_fixedChunks_iff hw hc hi hg]
    by_contra hcon
    exact ht ⟨hd, Nat.le_of_not_lt hcon, hshallow⟩

/-- Outside the torn chunk, a node's number names a chunk of the capacity of the node's own. -/
theorem runOf_number_capacity {i : Nat} (hi : g.coldIndexBegin ≤ i) (ht : ¬ g.InTornChunk i) :
    (g.runOf (g.place i).number).capacity = (g.place i).capacity := by
  rw [runOf_number hw hc hi ht]
  rfl

/-- A number past those of whole base-size chunks names a chunk past the seam. -/
theorem levelStart_le_firstNode (hd : g.dynamic = true) {n : Nat} (hn : g.fixedChunks ≤ n) :
    g.levelStart (g.sparseBegin + 1) ≤ g.firstNode n := by
  rw [← firstNode_fixedChunks hw hc hd]
  exact firstNode_le_firstNode hw hc hn

/-- A node's number names the chunk the node lies in exactly if that chunk is not torn. -/
theorem firstNode_number_iff {i : Nat} (hi : g.coldIndexBegin ≤ i) :
    g.firstNode (g.place i).number = (g.place i).chunkStart ↔ ¬ g.InTornChunk i := by
  constructor
  · intro heq ht
    obtain ⟨hd, hend, hseam⟩ := ht
    have hnumber := number_lt_fixedChunks_iff hw hc hi (not_grows_of_lt hseam)
    have hpast := levelStart_le_firstNode hw hc hd (n := (g.place i).number) (by omega)
    have hle := chunkStart_le hi
    omega
  · intro ht
    exact firstNode_of_runOf_eq (runOf_number hw hc hi ht)

/-! ## Nodes with the same number -/

omit hw hc in
theorem chunkStart_eq_of_not_grows {i j : Nat} (hgi : ¬ g.Grows (g.depthOf i))
    (hgj : ¬ g.Grows (g.depthOf j)) (h : (g.place i).number = (g.place j).number) :
    (g.place i).chunkStart = (g.place j).chunkStart := by
  unfold place at h ⊢
  rw [runAt_of_not_grows hgi, runAt_of_not_grows hgj] at h ⊢
  exact congrArg g.fixedRun.startOf h

/-- Two nodes with the same number lie in the same chunk exactly if both or neither lie in the
    torn one. -/
theorem chunkStart_eq_iff {i j : Nat} (hi : g.coldIndexBegin ≤ i) (hj : g.coldIndexBegin ≤ j)
    (h : (g.place i).number = (g.place j).number) :
    (g.place i).chunkStart = (g.place j).chunkStart ↔ (g.InTornChunk i ↔ g.InTornChunk j) := by
  have hfirst := firstNode_number_iff hw hc hi
  have hfirst' := firstNode_number_iff hw hc hj
  rw [h] at hfirst
  constructor
  · intro hstart
    rw [hstart] at hfirst
    exact not_iff_not.1 (hfirst.symm.trans hfirst')
  · intro hboth
    by_cases ht : g.InTornChunk i
    · have ht' := hboth.1 ht
      exact chunkStart_eq_of_not_grows (not_grows_of_lt ht.2.2) (not_grows_of_lt ht'.2.2) h
    · have ht' : ¬ g.InTornChunk j := fun hcon => ht (hboth.2 hcon)
      exact (hfirst.2 ht).symm.trans (hfirst'.2 ht')

/-! ## Which trees have a torn chunk -/

theorem not_inTornChunk (h : g.dynamic = true → g.nominalDepth ≤ g.coldBegin) (i : Nat) :
    ¬ g.InTornChunk i := by
  intro ht
  obtain ⟨hd, hend, hseam⟩ := ht
  have := (fixedEnd_eq_iff hw hc).2 (h hd)
  omega

/-- The first node that is left over at the seam bears the number of the first larger chunk, and
    the same offset as that chunk's first node. -/
theorem place_fixedEnd (h : g.fixedEnd < g.levelStart (g.sparseBegin + 1)) :
    (g.place g.fixedEnd).number = g.fixedChunks ∧ (g.place g.fixedEnd).offset = 0 := by
  unfold place
  rw [runAt_of_not_grows (not_grows_of_lt h)]
  exact ⟨ChunkRun.numberOf_startOf (capacity_pos hw hc) (Nat.zero_le _),
    g.fixedRun.startOf_sub_start_mod _⟩

/-- If the nominal depth lies past the first chunked one, some nodes are left over at the seam. -/
theorem fixedEnd_lt (h : ¬ g.nominalDepth ≤ g.coldBegin) :
    g.fixedEnd < g.levelStart (g.sparseBegin + 1) := by
  apply Nat.lt_of_le_of_ne (fixedEnd_le hw)
  intro heq
  exact h ((fixedEnd_eq_iff hw hc).1 heq)

theorem locate_fixedEnd (hr : g.Reaches (g.sparseBegin + 1))
    (h : g.fixedEnd < g.levelStart (g.sparseBegin + 1)) :
    g.locate g.fixedEnd = .ok (g.place g.fixedEnd) := by
  apply locate_of_reaches hw hc g.coldIndexBegin_le_fixedEnd
  exact hr.of_le (Nat.le_of_lt (lt_levelStart_iff.1 h))

/-! ## What a number names -/

theorem slotsNameNodes_of_numbersNameChunks (h : g.NumbersNameChunks) : g.SlotsNameNodes := by
  intro i j p q hp hq hnumber hoffset
  have hstart := h i j p q hp hq hnumber
  obtain ⟨hi, _, rfl⟩ := (locate_eq_ok_iff hw hc).1 hp
  obtain ⟨hj, _, rfl⟩ := (locate_eq_ok_iff hw hc).1 hq
  rw [← chunkStart_add_offset hi, ← chunkStart_add_offset hj, hstart, hoffset]

/-- If the seam does not fit, the torn chunk and the first larger one share a slot. -/
theorem seamFits_of_slotsNameNodes (h : g.SlotsNameNodes) : g.SeamFits := by
  intro hd hreach
  by_contra hcon
  have hlt := fixedEnd_lt hw hc hcon
  have htorn := locate_fixedEnd hw hc hreach hlt
  have hlarge : g.locate (g.levelStart (g.sparseBegin + 1)) =
      .ok (g.place (g.levelStart (g.sparseBegin + 1))) := by
    apply locate_of_reaches hw hc
    · exact Nat.le_trans g.coldIndexBegin_le_fixedEnd (Nat.le_of_lt hlt)
    · rwa [depthOf_levelStart]
  obtain ⟨hnumber, hoffset⟩ := place_fixedEnd hw hc hlt
  obtain ⟨hnumber', hoffset', _⟩ := place_firstNode hw hc g.fixedChunks
  rw [firstNode_fixedChunks hw hc hd] at hnumber' hoffset'
  have := h _ _ _ _ htorn hlarge (hnumber.trans hnumber'.symm) (hoffset.trans hoffset'.symm)
  omega

/-- If the seam fits, a number leads back to the chunk of every node that bears it. -/
theorem numbersNameChunks_of_seamFits (h : g.SeamFits) : g.NumbersNameChunks := by
  intro i j p q hp hq hnumber
  obtain ⟨hi, hri, rfl⟩ := (locate_eq_ok_iff hw hc).1 hp
  obtain ⟨hj, hrj, rfl⟩ := (locate_eq_ok_iff hw hc).1 hq
  by_cases hg : g.Grows (g.depthOf i) ∨ g.Grows (g.depthOf j)
  · -- a larger chunk that can be located puts the seam within reach
    have hreach : g.dynamic = true ∧ g.Reaches (g.sparseBegin + 1) := by
      rcases hg with hg | hg
      · exact ⟨hg.1, hri.of_le hg.2⟩
      · exact ⟨hg.1, hrj.of_le hg.2⟩
    have hfits := not_inTornChunk hw hc (fun _ => h hreach.1 hreach.2)
    rw [chunkStart_eq_iff hw hc hi hj hnumber]
    exact iff_of_false (hfits i) (hfits j)
  · obtain ⟨hgi, hgj⟩ := not_or.1 hg
    exact chunkStart_eq_of_not_grows hgi hgj hnumber

end

end ChunkedTree.Geometry

namespace ChunkedTree

open ChunkedTree.Geometry

variable {c : Config} {g : Geometry}

/-- **Chunk numbers and slots.** For a built tree with chunks: two nodes with the same number lie in
    the same chunk exactly if both or neither lie in the torn one; a number names one chunk, and
    number and offset together one node, exactly if the seam fits. -/
theorem numbersNameChunks_iff_seamFits (hb : c.build = .ok g) (hc : g.hasCold = true) :
    (∀ i j p q, g.locate i = .ok p → g.locate j = .ok q → p.number = q.number →
      (p.chunkStart = q.chunkStart ↔ (g.InTornChunk i ↔ g.InTornChunk j))) ∧
    (g.NumbersNameChunks ↔ g.SeamFits) ∧ (g.SlotsNameNodes ↔ g.SeamFits) := by
  have hw := Config.wellFormed_of_build hb
  have hslots := slotsNameNodes_of_numbersNameChunks hw hc
  have hseam := seamFits_of_slotsNameNodes hw hc
  have hnumbers := numbersNameChunks_of_seamFits hw hc
  refine ⟨?_, ⟨fun h => hseam (hslots h), hnumbers⟩, ⟨hseam, fun h => hslots (hnumbers h)⟩⟩
  intro i j p q hp hq hnumber
  obtain ⟨hi, _, rfl⟩ := (locate_eq_ok_iff hw hc).1 hp
  obtain ⟨hj, _, rfl⟩ := (locate_eq_ok_iff hw hc).1 hq
  exact chunkStart_eq_iff hw hc hi hj hnumber

theorem alignedQuadtree_numbersNameChunks :
    Config.alignedQuadtree.build = .ok alignedQuadtree ∧ alignedQuadtree.hasCold = true ∧
      alignedQuadtree.SeamFits ∧ alignedQuadtree.NumbersNameChunks ∧
      alignedQuadtree.SlotsNameNodes := by
  have hfits : alignedQuadtree.SeamFits := by decide
  obtain ⟨_, hnumbers, hslots⟩ := numbersNameChunks_iff_seamFits alignedQuadtree_build rfl
  exact ⟨alignedQuadtree_build, rfl, hfits, hnumbers.2 hfits, hslots.2 hfits⟩

/-- Nodes 5205 and 5461 both lie in slot 0 of chunk 5. -/
theorem tornQuadtree_slot_shared :
    Config.tornQuadtree.build = .ok tornQuadtree ∧ tornQuadtree.hasCold = true ∧
      ∃ p q, tornQuadtree.locate 5205 = .ok p ∧ tornQuadtree.locate 5461 = .ok q ∧
        p.number = 5 ∧ q.number = 5 ∧ p.offset = 0 ∧ q.offset = 0 ∧
        p.chunkStart = 5205 ∧ q.chunkStart = 5461 :=
  ⟨tornQuadtree_build, rfl, _, _, rfl, rfl, rfl, rfl, rfl, rfl, rfl, rfl⟩

end ChunkedTree
