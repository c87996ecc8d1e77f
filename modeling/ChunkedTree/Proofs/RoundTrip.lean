/-
  Looking up nodes and looking up chunk numbers, one after the other.

  From a number to its chunk and back is the identity for every number
  (`locate_firstNode_of_locateNumber`), and chunks found by their numbers lie in the order of the
  numbers without overlap. From a node to its number and back leads to the start of the node's own
  chunk unless that chunk is torn off at the seam (`startsChunkOf_iff`).
-/
import ChunkedTree.Proofs.TornChunk

namespace ChunkedTree

/-- `q` places the first node of the chunk that `p` lies in. -/
def Placement.StartsChunkOf (q p : Placement) : Prop :=
  q.chunkStart = p.chunkStart ∧ q.number = p.number ∧ q.capacity = p.capacity ∧ q.offset = 0

instance (q p : Placement) : Decidable (q.StartsChunkOf p) := inferInstanceAs (Decidable (_ ∧ _))

namespace Geometry

variable {g : Geometry}

/-- A number that a node bears leads back to the start of the node's chunk, wherever the lookup of
    that number answers. -/
def NumbersLeadBack (g : Geometry) : Prop :=
  ∀ i p q, g.locate i = .ok p → g.locateNumber p.number = .ok q → q.StartsChunkOf p

section

variable (hw : g.WellFormed) (hc : g.hasCold = true)
include hw hc

/-! ## From a number and back -/

/-- The chunk that a number leads to bears this number, and begins with the node it is named by. -/
theorem place_of_locateNumber {n : Nat} {p : Placement} (h : g.locateNumber n = .ok p) :
    p.number = n ∧ p.offset = 0 ∧ p.chunkStart = g.firstNode n ∧
      p.capacity = (g.runOf n).capacity := by
  obtain ⟨_, _, rfl⟩ := (locateNumber_eq_ok_iff hw hc).1 h
  exact place_firstNode hw hc n

theorem locate_firstNode_of_locateNumber {n : Nat} {p : Placement}
    (h : g.locateNumber n = .ok p) : g.locate (g.firstNode n) = .ok p := by
  obtain ⟨_, hreach, hplace⟩ := (locateNumber_eq_ok_iff hw hc).1 h
  exact (locate_eq_ok_iff hw hc).2 ⟨coldIndexBegin_le_firstNode hw n, hreach, hplace⟩

/-! ## From a node and back -/

theorem startsChunkOf_iff {i : Nat} {p q : Placement} (hp : g.locate i = .ok p)
    (hq : g.locateNumber p.number = .ok q) : q.StartsChunkOf p ↔ ¬ g.InTornChunk i := by
  obtain ⟨hi, _, rfl⟩ := (locate_eq_ok_iff hw hc).1 hp
  obtain ⟨hnumber, hoffset, hstart, hcapacity⟩ := place_of_locateNumber hw hc hq
  constructor
  · intro hstarts
    rw [← firstNode_number_iff hw hc hi, ← hstart]
    exact hstarts.1
  · intro ht
    refine ⟨?_, hnumber, ?_, hoffset⟩
    · rw [hstart]
      exact (firstNode_number_iff hw hc hi).2 ht
    · rw [hcapacity]
      exact runOf_number_capacity hw hc hi ht

/-- The number of a node outside the torn chunk can be looked up if the seam is within reach, which
    only a dynamic tree asks for. -/
theorem exists_locateNumber {i : Nat} {p : Placement} (hp : g.locate i = .ok p)
    (ht : ¬ g.InTornChunk i) (hs : g.dynamic = true → g.Reaches (g.sparseBegin + 1)) :
    ∃ q, g.locateNumber p.number = .ok q := by
  obtain ⟨hi, hreach, rfl⟩ := (locate_eq_ok_iff hw hc).1 hp
  refine ⟨_, (locateNumber_eq_ok_iff hw hc).2 ⟨hs, ?_, rfl⟩⟩
  rw [(firstNode_number_iff hw hc hi).2 ht]
  exact hreach.of_le (depthOf_le_depthOf (chunkStart_le hi))

theorem numbersLeadBack_of_seamFits (h : g.SeamFits) : g.NumbersLeadBack := by
  intro i p q hp hq
  obtain ⟨hseam, _, _⟩ := (locateNumber_eq_ok_iff hw hc).1 hq
  rw [startsChunkOf_iff hw hc hp hq]
  exact not_inTornChunk hw hc (fun hd => h hd (hseam hd)) i

/-- If the seam does not fit, the number of the torn chunk leads to the first larger one. -/
theorem seamFits_of_numbersLeadBack (h : g.NumbersLeadBack) : g.SeamFits := by
  intro hd hreach
  by_contra hcon
  have hlt := fixedEnd_lt hw hc hcon
  have htorn := locate_fixedEnd hw hc hreach hlt
  have hlarge : g.locateNumber (g.place g.fixedEnd).number =
      .ok (g.place (g.firstNode g.fixedChunks)) := by
    rw [(place_fixedEnd hw hc hlt).1, locateNumber_eq_ok_iff hw hc]
    refine ⟨fun _ => hreach, ?_, rfl⟩
    rwa [firstNode_fixedChunks hw hc hd, depthOf_levelStart]
  have hnot := (startsChunkOf_iff hw hc htorn hlarge).1 (h _ _ _ htorn hlarge)
  exact hnot ⟨hd, Nat.le_refl _, hlt⟩

end

end Geometry

open ChunkedTree.Geometry

variable {c : Config} {g : Geometry}

/-- **From a node to its number and back.** For a built tree with chunks: wherever the lookup of a
    node's number answers, it leads to the start of the node's chunk exactly if the node does not
    lie in the torn chunk; for nodes outside of it the lookup answers if the seam is within reach;
    and all nodes are led back to their chunks exactly if the seam fits. -/
theorem startsChunkOf_iff_not_torn (hb : c.build = .ok g) (hc : g.hasCold = true) :
    (∀ i p q, g.locate i = .ok p → g.locateNumber p.number = .ok q →
      (q.StartsChunkOf p ↔ ¬ g.InTornChunk i)) ∧
    (∀ i p, g.locate i = .ok p → ¬ g.InTornChunk i →
      (g.dynamic = true → g.Reaches (g.sparseBegin + 1)) →
      ∃ q, g.locateNumber p.number = .ok q) ∧
    (g.NumbersLeadBack ↔ g.SeamFits) := by
  have hw := Config.wellFormed_of_build hb
  refine ⟨?_, ?_, seamFits_of_numbersLeadBack hw hc, numbersLeadBack_of_seamFits hw hc⟩
  · intro i p q hp hq
    exact startsChunkOf_iff hw hc hp hq
  · intro i p hp ht hs
    exact exists_locateNumber hw hc hp ht hs

theorem alignedQuadtree_numbersLeadBack :
    Config.alignedQuadtree.build = .ok alignedQuadtree ∧ alignedQuadtree.hasCold = true ∧
      alignedQuadtree.SeamFits ∧ alignedQuadtree.NumbersLeadBack ∧
      ∃ p q, alignedQuadtree.locate 1400 = .ok p ∧ alignedQuadtree.locateNumber p.number = .ok q ∧
        q.StartsChunkOf p ∧ ¬ alignedQuadtree.InTornChunk 1400 := by
  obtain ⟨hstarts, _, hback⟩ := startsChunkOf_iff_not_torn alignedQuadtree_build rfl
  have hfits : alignedQuadtree.SeamFits := by decide
  have hwhole : ¬ alignedQuadtree.InTornChunk 1400 := by decide
  exact ⟨alignedQuadtree_build, rfl, hfits, hback.2 hfits, _, _, rfl, rfl,
    (hstarts 1400 _ _ rfl rfl).2 hwhole, hwhole⟩

/-- Node 5205 bears the number 5, which leads to the chunk of node 5461. -/
theorem tornQuadtree_number_misleads :
    Config.tornQuadtree.build = .ok tornQuadtree ∧ tornQuadtree.hasCold = true ∧
      ∃ p q, tornQuadtree.locate 5205 = .ok p ∧ p.number = 5 ∧ p.chunkStart = 5205 ∧
        tornQuadtree.locateNumber 5 = .ok q ∧ q.chunkStart = 5461 ∧ ¬ q.StartsChunkOf p :=
  ⟨tornQuadtree_build, rfl, _, _, rfl, rfl, rfl, rfl, rfl, by decide⟩

/-- **From a number to its chunk and back.** For a built tree with chunks: wherever the lookup of a
    number answers, the answer bears this number, stands at the start of its chunk, and is what
    the lookup of that chunk's first node answers; and no chunk found by its number reaches into
    one with a larger number. -/
theorem locate_of_locateNumber (hb : c.build = .ok g) (hc : g.hasCold = true) :
    (∀ n p, g.locateNumber n = .ok p →
      p.number = n ∧ p.offset = 0 ∧ g.locate p.chunkStart = .ok p) ∧
    (∀ n m p q, n < m → g.locateNumber n = .ok p → g.locateNumber m = .ok q →
      p.chunkStart + p.capacity ≤ q.chunkStart) := by
  have hw := Config.wellFormed_of_build hb
  constructor
  · intro n p hp
    obtain ⟨hnumber, hoffset, hstart, _⟩ := place_of_locateNumber hw hc hp
    refine ⟨hnumber, hoffset, ?_⟩
    rw [hstart]
    exact locate_firstNode_of_locateNumber hw hc hp
  · intro n m p q hlt hp hq
    obtain ⟨_, _, hstart, hcapacity⟩ := place_of_locateNumber hw hc hp
    obtain ⟨_, _, hstart', _⟩ := place_of_locateNumber hw hc hq
    rw [hstart, hcapacity, hstart']
    exact firstNode_add_capacity_le hw hc hlt

/-- Even where the last chunk of base size is torn off. -/
theorem tornQuadtree_locate_of_locateNumber :
    Config.tornQuadtree.build = .ok tornQuadtree ∧ tornQuadtree.hasCold = true ∧
      ∃ p q, tornQuadtree.locateNumber 4 = .ok p ∧ tornQuadtree.locateNumber 5 = .ok q ∧
        p.number = 4 ∧ p.offset = 0 ∧ tornQuadtree.locate p.chunkStart = .ok p ∧
        p.chunkStart + p.capacity ≤ q.chunkStart := by
  obtain ⟨hback, horder⟩ := locate_of_locateNumber tornQuadtree_build rfl
  obtain ⟨hnumber, hoffset, hlocate⟩ := hback 4 _ rfl
  exact ⟨tornQuadtree_build, rfl, _, _, rfl, rfl, hnumber, hoffset, hlocate,
    horder 4 5 _ _ (by decide) rfl rfl⟩

end ChunkedTree
