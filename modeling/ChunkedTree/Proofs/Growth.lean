/-
  Letting chunks grow, and what it leaves alone.

  One flag of the parameters says whether chunks grow past the sparse depth. It moves no boundary:
  with the flag and without it, the parameters that are built become the same geometry but for the
  flag itself (`eq_growing_of_build`). At the sparse depth and above it nodes lie in chunks of base
  size either way (`runAt_growing`), so they are placed alike, and so are the chunks that are found
  by their numbers as long as these are chunks of base size (`firstNode_growing`).

  Alignment has to be looked at more closely. Of the sparse depth it asks whether the depth below
  starts a chunk, which it does not do in both geometries alike. But where it starts one only
  because chunks grow, the sparse depth itself does not (`aligned_growing_iff`).
-/
import ChunkedTree.Proofs.Alignment

namespace ChunkedTree

/-- Both computations have an answer, and it is the same. -/
def Checked.Agree {α : Type} (x y : Checked α) : Prop := ∃ a, x = .ok a ∧ y = .ok a

namespace Geometry

variable {g : Geometry} {d i n : Nat}

/-- The same boundaries, with chunks that grow. -/
def growing (g : Geometry) : Geometry := { g with hasSparse := true, dynamic := true }

/-- Lookups, and questions about depths, are answered alike up to `depth`. -/
structure AgreesTo (g g' : Geometry) (depth : Nat) : Prop where
  locate : ∀ i, g.coldIndexBegin ≤ i → i < g.levelStart (depth + 1) →
    Checked.Agree (g.locate i) (g'.locate i)
  chunkCount? : ∀ d, g.coldBegin ≤ d → d ≤ depth →
    Checked.Agree (g.chunkCount? d) (g'.chunkCount? d)
  firstNumber? : ∀ d, g.coldBegin ≤ d → d ≤ depth →
    Checked.Agree (g.firstNumber? d) (g'.firstNumber? d)
  numberRange? : ∀ d, g.coldBegin ≤ d → d ≤ depth →
    Checked.Agree (g.numberRange? d) (g'.numberRange? d)
  isAligned? : ∀ d, g.coldBegin ≤ d → d ≤ depth →
    Checked.Agree (g.isAligned? d) (g'.isAligned? d)
  /-- Of the numbers, those of whole chunks of base size up to the depth. -/
  locateNumber : ∀ n, n < (g.levelStart (depth + 1) - g.coldIndexBegin) / g.capacity →
    Checked.Agree (g.locateNumber n) (g'.locateNumber n)

/-! ## Placing nodes -/

theorem not_grows_of_le (h : d ≤ g.sparseBegin) : ¬ g.Grows d :=
  fun hg => Nat.not_lt_of_le h hg.2

theorem runAt_growing (h : d ≤ g.sparseBegin) : g.growing.runAt d = g.runAt d := by
  have h' : d ≤ g.growing.sparseBegin := h
  rw [runAt_of_not_grows (not_grows_of_le h), runAt_of_not_grows (not_grows_of_le h')]
  rfl

theorem place_growing (h : g.depthOf i ≤ g.sparseBegin) : g.growing.place i = g.place i := by
  show (g.growing.runAt (g.depthOf i)).place i (g.depthOf i) (g.levelStart (g.depthOf i)) = _
  rw [runAt_growing h]
  rfl

theorem firstNumber_growing (h : d ≤ g.sparseBegin) :
    g.growing.firstNumber d = g.firstNumber d := by
  show (g.growing.place (g.levelStart d)).number = _
  rw [place_growing]
  · rfl
  · rwa [depthOf_levelStart]

theorem lastNumber_growing (h : d ≤ g.sparseBegin) : g.growing.lastNumber d = g.lastNumber d := by
  show (g.growing.place (g.levelLast d)).number = _
  rw [place_growing]
  · rfl
  · rwa [depthOf_levelLast]

theorem chunkCount_growing (h : d ≤ g.sparseBegin) : g.growing.chunkCount d = g.chunkCount d := by
  show Level.size g.dimensions d / (g.growing.runAt d).capacity = _
  rw [runAt_growing h]
  rfl

section

variable (hw : g.WellFormed) (hw' : g.growing.WellFormed) (hc : g.hasCold = true)
include hw hw' hc

/-- If chunks of base size cross level boundaries, no depth up to the sparse one is aligned, however
    the depth after it begins. -/
theorem aligned_growing_iff (hd : g.coldBegin ≤ d) (h : d ≤ g.sparseBegin) :
    g.growing.Aligned d ↔ g.Aligned d := by
  have h' : d ≤ g.growing.sparseBegin := h
  rw [aligned_iff hw hc hd, aligned_iff hw' hc hd, or_iff_left (not_grows_of_le h),
    or_iff_left (not_grows_of_le h')]
  rfl

/-! ## Chunks of base size by their numbers -/

omit hw hw' hc in
theorem firstNode_growing (hn : n < g.fixedChunks) : g.growing.firstNode n = g.firstNode n := by
  have hn' : n < g.growing.fixedChunks := hn
  exact (firstNode_fixed (fun _ => hn')).trans (firstNode_fixed (fun _ => hn)).symm

omit hw in
theorem depthOf_firstNode_le (hn : n < g.fixedChunks) :
    g.depthOf (g.firstNode n) ≤ g.sparseBegin := by
  have hn' : n < g.growing.fixedChunks := hn
  rw [← firstNode_growing hn]
  by_contra hcon
  exact not_grows_firstNode_fixed hw' hc (fun _ => hn') ⟨rfl, Nat.lt_of_not_le hcon⟩

/-! ## The answers -/

theorem agreesTo_growing (hr : g.Reaches (g.sparseBegin + 1)) :
    g.AgreesTo g.growing g.sparseBegin := by
  have hr' : g.growing.Reaches (g.sparseBegin + 1) := hr
  have hnext {d : Nat} (hd : d ≤ g.sparseBegin) : g.Reaches (d + 1) :=
    hr.of_le (Nat.succ_le_succ hd)
  constructor
  case locate =>
    intro i hi hlt
    have h : g.depthOf i ≤ g.sparseBegin := Nat.le_of_lt_succ (lt_levelStart_iff.1 hlt)
    have hreach := hr.of_le (Nat.le_succ_of_le h)
    refine ⟨_, locate_of_reaches hw hc hi hreach, ?_⟩
    rw [← place_growing h]
    exact locate_of_reaches hw' hc hi hreach
  case chunkCount? =>
    intro d hd h
    refine ⟨_, chunkCount?_of_reaches hw hc (hnext h), ?_⟩
    rw [← chunkCount_growing h]
    exact chunkCount?_of_reaches hw' hc (hnext h)
  case firstNumber? =>
    intro d hd h
    have hreach := hr.of_le (Nat.le_succ_of_le h)
    exact ⟨_, (firstNumber?_eq_ok_iff hw hc hd).2 ⟨hreach, rfl⟩,
      (firstNumber?_eq_ok_iff hw' hc hd).2 ⟨hreach, firstNumber_growing h⟩⟩
  case numberRange? =>
    intro d hd h
    refine ⟨_, numberRange?_of_reaches hw hc hd (hnext h), ?_⟩
    rw [← firstNumber_growing h, ← lastNumber_growing h]
    exact numberRange?_of_reaches hw' hc hd (hnext h)
  case isAligned? =>
    intro d hd h
    refine ⟨_, isAligned?_of_reaches hw hc hd (hnext h), ?_⟩
    rw [← decide_eq_decide.2 (aligned_growing_iff hw hw' hc hd h)]
    exact isAligned?_of_reaches hw' hc hd (hnext h)
  case locateNumber =>
    intro n hn
    have h := depthOf_firstNode_le hw' hc hn
    have hreach := hr.of_le (Nat.le_succ_of_le h)
    have hnode := firstNode_growing hn
    refine ⟨_, (locateNumber_eq_ok_iff hw hc).2 ⟨fun _ => hr, hreach, rfl⟩, ?_⟩
    rw [← place_growing h, ← hnode]
    rw [← hnode] at hreach
    exact (locateNumber_eq_ok_iff hw' hc).2 ⟨fun _ => hr', hreach, rfl⟩

end

end Geometry

/-! ## Building with and without the flag -/

theorem Config.eq_growing_of_build {c : Config} {g g' : Geometry}
    (hb : { c with dynamicChunks := false }.build = .ok g)
    (hb' : { c with dynamicChunks := true }.build = .ok g') : g' = g.growing := by
  obtain ⟨shape, sparse, hshape, _, hsparse, rfl, _⟩ := build_eq_ok_iff.1 hb
  obtain ⟨shape', sparse', hshape', _, hsparse', rfl, _⟩ := build_eq_ok_iff.1 hb'
  -- neither the shape nor the sparse depth is read off the flag
  obtain rfl : shape = shape' := Except.ok.inj (hshape.symm.trans hshape')
  obtain rfl : sparse = sparse' := Except.ok.inj (hsparse.symm.trans hsparse')
  unfold geometry Geometry.growing
  rw [Bool.or_true]
  rfl

open ChunkedTree.Geometry

/-- **Growth begins past the sparse depth.** For parameters that are built both with chunks that
    grow and without, with a chunked range, and the depth after the sparse one within reach: the
    sparse depth is the same, and up to this depth every chunked node, every depth and every number
    of a whole chunk is told the same of. -/
theorem growth_agrees_to_sparseBegin {c : Config} {g g' : Geometry}
    (hb : { c with dynamicChunks := false }.build = .ok g)
    (hb' : { c with dynamicChunks := true }.build = .ok g') (hc : g.hasCold = true)
    (hr : g.Reaches (g.sparseBegin + 1)) :
    g'.sparseBegin = g.sparseBegin ∧ g.AgreesTo g' g.sparseBegin := by
  obtain rfl := Config.eq_growing_of_build hb hb'
  exact ⟨rfl, agreesTo_growing (Config.wellFormed_of_build hb) (Config.wellFormed_of_build hb') hc
    hr⟩

/-- Without growth depth 6 ends in the middle of a chunk, and with it depth 7 starts one; either way
    depth 6 is not aligned. Its node 5205 and chunk 4 are told the same of too. -/
theorem tornQuadtree_growth_agrees :
    { Config.tornQuadtree with dynamicChunks := false }.build =
        .ok { tornQuadtree with dynamic := false } ∧
      { Config.tornQuadtree with dynamicChunks := true }.build = .ok tornQuadtree ∧
      tornQuadtree.Reaches 7 ∧
      Checked.Agree ({ tornQuadtree with dynamic := false }.isAligned? 6)
        (tornQuadtree.isAligned? 6) ∧
      Checked.Agree ({ tornQuadtree with dynamic := false }.locate 5205)
        (tornQuadtree.locate 5205) ∧
      Checked.Agree ({ tornQuadtree with dynamic := false }.locateNumber 4)
        (tornQuadtree.locateNumber 4) := by
  have hb : { Config.tornQuadtree with dynamicChunks := false }.build =
      .ok { tornQuadtree with dynamic := false } := by decide
  have hb' : { Config.tornQuadtree with dynamicChunks := true }.build = .ok tornQuadtree :=
    tornQuadtree_build
  have hr : tornQuadtree.Reaches 7 := by decide
  obtain ⟨_, hagrees⟩ := growth_agrees_to_sparseBegin hb hb' rfl hr
  exact ⟨hb, hb', hr, hagrees.isAligned? 6 (by decide) (by decide),
    hagrees.locate 5205 (by decide) (by decide), hagrees.locateNumber 4 (by decide)⟩

end ChunkedTree
