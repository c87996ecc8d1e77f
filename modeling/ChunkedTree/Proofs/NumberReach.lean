/-
  Which numbers lead to a chunk, and what the others are told.

  A number leads to the depth at which its chunk begins (`numberDepth`): that of a chunk of base
  size in a dynamic tree is no deeper than the sparse depth, and that of a larger one is a quotient
  past it. `locateNumber_eq_ite`: the lookup answers exactly if the exponent of that depth is a word.

  It is not enough that the depth itself is a word: past half the largest word in a quadtree, and a
  third of it in an octree, the exponent is none and the lookup overflows. It reports a number as too
  deep only if not even the quotient is a word (`numberFault`).
-/
import ChunkedTree.Proofs.DepthNumbering
import ChunkedTree.Proofs.NumberLookup

namespace ChunkedTree.Geometry

variable {g : Geometry} {n : Nat}

/-- Depths between the first one with larger chunks and that of the chunk with the given number. -/
def depthsPast (g : Geometry) (number : Nat) : Nat :=
  (number - g.fixedChunks) / g.chunksPerSparseDepth

/-- Depth at which the chunk with the given number begins. -/
def numberDepth (g : Geometry) (number : Nat) : Nat :=
  if g.dynamic = true ∧ g.fixedChunks ≤ number then g.sparseBegin + 1 + g.depthsPast number
  else g.depthOf (g.coldIndexBegin + number * g.capacity)

/-- What is told of a number whose depth is out of reach. -/
def numberFault (g : Geometry) (number : Nat) : Fault :=
  if g.dynamic = true ∧ maxWord < g.depthsPast number then .precondition (.wordDepth number)
  else .overflow

theorem numberFault_of_word (h : g.numberDepth n ≤ maxWord) : g.numberFault n = .overflow := by
  unfold numberFault
  rw [if_neg]
  intro hpast
  obtain ⟨hd, hlt⟩ := hpast
  -- only a number past those of base-size chunks has depths to pass
  have hn : g.fixedChunks ≤ n := by
    by_contra hcon
    have hnone : g.depthsPast n = 0 := by
      unfold depthsPast
      rw [Nat.sub_eq_zero_of_le (Nat.le_of_not_le hcon), Nat.zero_div]
    omega
  unfold numberDepth at h
  rw [if_pos ⟨hd, hn⟩] at h
  omega

section

variable (hw : g.WellFormed) (hc : g.hasCold = true)
include hw hc

/-! ## The depth that a number leads to -/

theorem depthOf_firstNode (n : Nat) : g.depthOf (g.firstNode n) = g.numberDepth n := by
  unfold numberDepth
  by_cases h : g.dynamic = true ∧ g.fixedChunks ≤ n
  · obtain ⟨hd, hn⟩ := h
    rw [if_pos ⟨hd, hn⟩]
    obtain ⟨q, r, hr, rfl⟩ := exists_place_of_le hd hn
    unfold depthsPast
    rw [depthOf_firstNode_sparse hd hr hw hc, Nat.add_sub_cancel_left,
      Nat.mul_add_div (chunksPerSparseDepth_pos hd), Nat.div_eq_of_lt hr, Nat.add_zero q]
  · have hn : g.dynamic = true → n < g.fixedChunks :=
      fun hd => Nat.lt_of_not_le (not_and.1 h hd)
    rw [if_neg h, firstNode_fixed hn]

theorem numberDepth_le_sparseBegin (hd : g.dynamic = true) (hn : n < g.fixedChunks) :
    g.numberDepth n ≤ g.sparseBegin := by
  rw [← depthOf_firstNode hw hc]
  by_contra hcon
  exact not_grows_firstNode_fixed hw hc (fun _ => hn) ⟨hd, Nat.lt_of_not_le hcon⟩

theorem reaches_numberDepth_of_lt (hd : g.dynamic = true) (hn : n < g.fixedChunks) :
    g.Reaches (g.numberDepth n) :=
  hw.reaches_sparseBegin.of_le (numberDepth_le_sparseBegin hw hc hd hn)

omit hw hc in
theorem reaches_numberDepth_of_log2 (hd : g.dynamic = false)
    (hbits : (g.coldIndexBegin + n * g.capacity).log2 + 1 < maxWord) :
    g.Reaches (g.numberDepth n) := by
  unfold numberDepth
  rw [if_neg (fun h => Bool.false_ne_true (hd.symm.trans h.1))]
  exact reaches_depthOf_of_log2 hbits

/-! ## Numbers out of reach -/

omit hw in
theorem locate_of_not_reaches {i : Nat} (hi : g.coldIndexBegin ≤ i)
    (hr : ¬ g.Reaches (g.depthOf i)) : g.locate i = .error .overflow := by
  have hstart : Level.start? g.dimensions (g.depthOf i) = .error .overflow :=
    (Level.start?_eq_ite g.dimensions_pos g.dimensions_lt _).trans (if_neg hr)
  unfold locate
  simp only [Checked.require, hc, decide_eq_true hi, if_true, hstart, ok_bind]
  rfl

omit hw hc in
/-- The quotient is tested first, then the depth it gives overflows. -/
theorem sparseChunkStart?_of_not_reaches (hd : g.dynamic = true)
    (hr : ¬ g.Reaches (g.sparseBegin + 1 + g.depthsPast n)) :
    g.sparseChunkStart? n (n - g.fixedChunks) = .error (g.numberFault n) := by
  have hstart : Level.start? g.dimensions (min (g.sparseBegin + 1 + g.depthsPast n) maxWord) =
      .error .overflow :=
    (Level.start?_eq_ite g.dimensions_pos g.dimensions_lt _).trans
      (if_neg (mt reaches_min_maxWord_iff.1 hr))
  unfold sparseChunkStart? numberFault
  rw [Checked.divMod_of_pos (chunksPerSparseDepth_pos hd), ok_bind]
  change (Checked.require (g.depthsPast n ≤ maxWord) _ >>= _) = _
  by_cases hq : g.depthsPast n ≤ maxWord
  · rw [if_neg (fun h => Nat.not_lt_of_le hq h.2)]
    simp only [Checked.require, decide_eq_true hq, if_true, ok_bind]
    change (Level.start? g.dimensions (min (g.sparseBegin + 1 + g.depthsPast n) maxWord) >>= _) = _
    rw [hstart]
    rfl
  · rw [if_pos ⟨hd, Nat.lt_of_not_le hq⟩]
    simp only [Checked.require, decide_eq_false hq]
    rfl

theorem locateNumber_of_not_reaches (hs : g.dynamic = true → g.Reaches (g.sparseBegin + 1))
    (hr : ¬ g.Reaches (g.numberDepth n)) : g.locateNumber n = .error (g.numberFault n) := by
  unfold locateNumber
  by_cases hd : g.dynamic = true
  · have hn : g.fixedChunks ≤ n := by
      by_contra hcon
      exact hr (reaches_numberDepth_of_lt hw hc hd (Nat.lt_of_not_le hcon))
    unfold numberDepth at hr
    rw [if_pos ⟨hd, hn⟩] at hr
    rw [chunkStart?_of_dynamic hw hc hd (hs hd), if_neg (Nat.not_lt_of_le hn),
      sparseChunkStart?_of_not_reaches hd hr]
    rfl
  · have hstart : g.chunkStart? n = .ok (g.firstNode n) :=
      (chunkStart?_eq_ok_iff hw hc).2 ⟨fun h => absurd h hd, rfl⟩
    rw [← depthOf_firstNode hw hc] at hr
    rw [hstart, ok_bind, locate_of_not_reaches hc (coldIndexBegin_le_firstNode hw n) hr]
    unfold numberFault
    rw [if_neg (fun h => hd h.1)]

/-- Of every number: its chunk if the depth it leads to is in reach, else why there is none. -/
theorem locateNumber_eq_ite (hs : g.dynamic = true → g.Reaches (g.sparseBegin + 1)) (n : Nat) :
    g.locateNumber n =
      if g.Reaches (g.numberDepth n) then .ok (g.place (g.firstNode n))
      else .error (g.numberFault n) := by
  by_cases hr : g.Reaches (g.numberDepth n)
  · rw [if_pos hr, locateNumber_eq_ok_iff hw hc, depthOf_firstNode hw hc]
    exact ⟨hs, hr, rfl⟩
  · rw [if_neg hr]
    exact locateNumber_of_not_reaches hw hc hs hr

end

end ChunkedTree.Geometry

namespace ChunkedTree

open ChunkedTree.Geometry

variable {c : Config} {g : Geometry}

/-- **Which numbers can be looked up.** For a built tree with chunks, and the seam within reach if it
    is dynamic: a number is answered, by the first node of its chunk, exactly if the exponent of the
    depth it leads to is a word. That holds of every number of a base-size chunk: in a dynamic tree
    always, in others while the node's index has a bit length below the largest word. Of the
    remaining ones those that lead to a depth that is a word overflow. -/
theorem locateNumber_answers_iff (hb : c.build = .ok g) (hc : g.hasCold = true)
    (hs : g.dynamic = true → g.Reaches (g.sparseBegin + 1)) (n : Nat) :
    (g.Reaches (g.numberDepth n) → ∃ p, g.locateNumber n = .ok p ∧ p.number = n ∧ p.offset = 0 ∧
      p.depth = g.numberDepth n) ∧
    (¬ g.Reaches (g.numberDepth n) → g.locateNumber n = .error (g.numberFault n)) ∧
    (g.dynamic = true → n < g.fixedChunks → g.Reaches (g.numberDepth n)) ∧
    (g.dynamic = false → (g.coldIndexBegin + n * g.capacity).log2 + 1 < maxWord →
      g.Reaches (g.numberDepth n)) ∧
    (g.numberDepth n ≤ maxWord → g.numberFault n = .overflow) := by
  have hw := Config.wellFormed_of_build hb
  have hlookup := locateNumber_eq_ite hw hc hs n
  refine ⟨?_, ?_, fun hd hn => reaches_numberDepth_of_lt hw hc hd hn,
    fun hd hbits => reaches_numberDepth_of_log2 hd hbits, numberFault_of_word⟩
  · intro hr
    rw [if_pos hr] at hlookup
    obtain ⟨hnumber, hoffset, _⟩ := place_firstNode hw hc n
    exact ⟨_, hlookup, hnumber, hoffset, depthOf_firstNode hw hc n⟩
  · intro hr
    rw [if_neg hr] at hlookup
    exact hlookup

/-- A chunk at depth 1000, 995 depths past the sparse one. -/
theorem alignedQuadtree_locateNumber_answers :
    Config.alignedQuadtree.build = .ok alignedQuadtree ∧ alignedQuadtree.hasCold = true ∧
      alignedQuadtree.Reaches 6 ∧ alignedQuadtree.numberDepth 63703 = 1000 ∧
      ∃ p, alignedQuadtree.locateNumber 63703 = .ok p ∧ p.number = 63703 ∧ p.depth = 1000 := by
  have hs : alignedQuadtree.Reaches 6 := by decide
  have hdepth : alignedQuadtree.numberDepth 63703 = 1000 := by decide
  obtain ⟨hreached, _⟩ := locateNumber_answers_iff alignedQuadtree_build rfl (fun _ => hs) 63703
  rw [hdepth] at hreached
  obtain ⟨p, hp, hnumber, _, hp'⟩ := hreached (by decide)
  exact ⟨alignedQuadtree_build, rfl, hs, hdepth, p, hp, hnumber, hp'⟩

/-- A number that leads to depth `2 ^ 63`: the depth is a word, but twice the depth is none. -/
theorem alignedQuadtree_locateNumber_overflows :
    Config.alignedQuadtree.build = .ok alignedQuadtree ∧ alignedQuadtree.hasCold = true ∧
      alignedQuadtree.Reaches (alignedQuadtree.sparseBegin + 1) ∧
      alignedQuadtree.numberDepth 590295810358705651408 = 9223372036854775808 ∧
      9223372036854775808 ≤ maxWord ∧
      alignedQuadtree.locateNumber 590295810358705651408 = .error .overflow :=
  ⟨alignedQuadtree_build, rfl, by decide, by decide, by decide, rfl⟩

end ChunkedTree
