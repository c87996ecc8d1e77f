/-
  Aligned depths, and numbers that two depths share.

  A depth is aligned exactly if the chunked range begins no shallower than the nominal depth, so
  that no chunk of base size crosses a level boundary, or if its chunks are the larger ones past the
  sparse depth (`aligned_iff`). These are the depths whose chunks hold no other depth's nodes
  (`aligned_iff_not_sharesChunk`).

  Their numbers are another matter. Where a chunk crosses a level boundary, nodes of both depths
  bear its number; and so they do at the seam, where the torn chunk and the first larger one bear
  the same number though they are two chunks (`sharesNumber_iff`). Alignment therefore tells which
  depths share numbers, except for the depth after the sparse one if the seam does not fit.
-/
import ChunkedTree.Proofs.DepthNumbering
import ChunkedTree.Proofs.TornChunk

namespace ChunkedTree.Geometry

variable {g : Geometry} {d : Nat}

/-- A chunk that holds a node at `depth` also holds one at another depth. -/
def SharesChunk (g : Geometry) (depth : Nat) : Prop :=
  ∃ i j p q, g.depthOf i = depth ∧ g.depthOf j ≠ depth ∧ g.locate i = .ok p ∧
    g.locate j = .ok q ∧ p.chunkStart = q.chunkStart

/-- A node at `depth` and a node at another chunked depth bear the same number. -/
def SharesNumber (g : Geometry) (depth : Nat) : Prop :=
  ∃ i j p q, g.depthOf i = depth ∧ g.depthOf j ≠ depth ∧ g.locate i = .ok p ∧
    g.locate j = .ok q ∧ p.number = q.number

section

variable (hw : g.WellFormed) (hc : g.hasCold = true)
include hw hc

/-! ## Which depths are aligned -/

theorem startsChunk_iff (hd : g.coldBegin ≤ d) :
    g.StartsChunk d ↔ g.nominalDepth ≤ g.coldBegin ∨ d = g.coldBegin ∨ g.Grows d := by
  unfold StartsChunk place
  rw [depthOf_levelStart]
  by_cases hg : g.Grows d
  · rw [runAt_of_grows hg]
    apply iff_of_true _ (Or.inr (Or.inr hg))
    change (g.levelStart d - g.levelStart d) % _ = 0
    rw [Nat.sub_self, Nat.zero_mod]
  · rw [runAt_of_not_grows hg]
    change (g.levelStart d - g.coldIndexBegin) % g.capacity = 0 ↔ _
    rw [← Nat.dvd_iff_mod_eq_zero, capacity_dvd_levelStart_sub_iff hw hc hd, or_iff_left hg]

omit hc in
/-- The sparse depth of a dynamic tree is no shallower than the nominal one, so larger chunks that
    begin right after the first chunked depth leave nothing to cross a boundary. -/
theorem not_grows_coldBegin_succ (hn : ¬ g.nominalDepth ≤ g.coldBegin) :
    ¬ g.Grows (g.coldBegin + 1) := by
  intro hg
  have := hw.nominalDepth_le hg.1
  have := hg.2
  omega

theorem aligned_iff (hd : g.coldBegin ≤ d) :
    g.Aligned d ↔ g.nominalDepth ≤ g.coldBegin ∨ g.Grows d := by
  unfold Aligned
  rw [startsChunk_iff hw hc hd, startsChunk_iff hw hc (Nat.le_succ_of_le hd)]
  constructor
  · intro h
    obtain ⟨hfirst, hnext⟩ := h
    by_contra hcon
    obtain ⟨hn, hg⟩ := not_or.1 hcon
    have hbegin : d = g.coldBegin := (hfirst.resolve_left hn).resolve_right hg
    subst hbegin
    have hgrows : g.Grows (g.coldBegin + 1) := (hnext.resolve_left hn).resolve_left (by omega)
    exact not_grows_coldBegin_succ hw hn hgrows
  · intro h
    rcases h with hn | hg
    · exact ⟨Or.inl hn, Or.inl hn⟩
    · exact ⟨Or.inr (Or.inr hg), Or.inr (Or.inr ⟨hg.1, Nat.lt_succ_of_lt hg.2⟩)⟩

omit hw hc in
/-- If a depth starts a chunk, its first node is where the chunk of its first number begins. -/
theorem startOf_firstNumber (hd : g.coldBegin ≤ d) (hs : g.StartsChunk d) :
    (g.runAt d).startOf (g.firstNumber d) = g.levelStart d := by
  have hsum := chunkStart_add_offset (g := g) (levelStart_le_levelStart hd)
  rw [hs, Nat.add_zero] at hsum
  unfold firstNumber
  unfold place at hsum ⊢
  rw [depthOf_levelStart] at hsum ⊢
  exact hsum

omit hw hc in
/-- If a depth starts a chunk, the chunks of its nodes begin at that depth. -/
theorem depthOf_chunkStart {i : Nat} (hi : g.coldIndexBegin ≤ i)
    (hs : g.StartsChunk (g.depthOf i)) : g.depthOf (g.place i).chunkStart = g.depthOf i := by
  have hd : g.coldBegin ≤ g.depthOf i := levelStart_le_iff.1 hi
  have hfirst : g.levelStart (g.depthOf i) ≤ (g.place i).chunkStart := by
    rw [← startOf_firstNumber hd hs]
    exact ChunkRun.startOf_le_startOf
      (number_le_number (g.levelStart_depthOf_le i) (g.depthOf_levelStart _))
  have hnext : i < g.levelStart (g.depthOf i + 1) := lt_levelStart_iff.2 (Nat.lt_succ_self _)
  rw [depthOf_eq_iff]
  exact ⟨hfirst, Nat.lt_of_le_of_lt (chunkStart_le hi) hnext⟩

omit hw hc in
/-- Nodes in one chunk lie at one depth, if their depths start a chunk. -/
theorem depthOf_eq_of_chunkStart_eq {i j : Nat} (hi : g.coldIndexBegin ≤ i)
    (hj : g.coldIndexBegin ≤ j) (h : (g.place i).chunkStart = (g.place j).chunkStart)
    (hsi : g.StartsChunk (g.depthOf i)) (hsj : g.StartsChunk (g.depthOf j)) :
    g.depthOf i = g.depthOf j := by
  rw [← depthOf_chunkStart hi hsi, h, depthOf_chunkStart hj hsj]

/-! ## Which depths share chunks -/

omit hw hc in
/-- A level that starts no chunk begins in the chunk that the level above it ends with. -/
theorem lastNumber_eq_firstNumber_succ (hd : g.coldBegin ≤ d) (hg : ¬ g.Grows (d + 1))
    (hs : ¬ g.StartsChunk (d + 1)) : g.lastNumber d = g.firstNumber (d + 1) := by
  have hg' : ¬ g.Grows d := fun h => hg ⟨h.1, Nat.lt_succ_of_lt h.2⟩
  have hbefore := coldIndexBegin_le_levelLast hd
  have hnext : g.levelStart (d + 1) - g.coldIndexBegin = g.levelLast d - g.coldIndexBegin + 1 := by
    have := g.levelLast_lt d
    unfold levelLast at this hbefore ⊢
    omega
  unfold StartsChunk place at hs
  rw [depthOf_levelStart, runAt_of_not_grows hg] at hs
  change ¬ (g.levelStart (d + 1) - g.coldIndexBegin) % g.capacity = 0 at hs
  rw [← Nat.dvd_iff_mod_eq_zero, hnext] at hs
  rw [lastNumber_of_not_grows hg', firstNumber_of_not_grows hg, hnext, Nat.succ_div_of_not_dvd hs]

/-- If chunks of base size cross level boundaries, every depth up to the sparse one ends or begins
    in the middle of a chunk: the first chunked one shares it with the depth below, every other one
    with the depth above. -/
theorem exists_crossing (hd : g.coldBegin ≤ d) (hr : g.Reaches (d + 1))
    (hn : ¬ g.nominalDepth ≤ g.coldBegin) (hg : ¬ g.Grows d) :
    ∃ i j, g.depthOf i = d ∧ g.depthOf j ≠ d ∧ g.locate i = .ok (g.place i) ∧
      g.locate j = .ok (g.place j) ∧ ¬ g.Grows (g.depthOf j) ∧
      (g.place i).number = (g.place j).number := by
  rcases Nat.eq_or_lt_of_le hd with rfl | hlt
  · have hg' := not_grows_coldBegin_succ hw hn
    have hs : ¬ g.StartsChunk (g.coldBegin + 1) := by
      rw [startsChunk_iff hw hc (Nat.le_succ _)]
      simp [hn, hg']
    refine ⟨_, _, g.depthOf_levelLast _, ?_,
      locate_levelLast hw hc (Nat.le_refl _) (hr.of_le (Nat.le_succ _)),
      locate_levelStart hw hc (Nat.le_succ _) hr, ?_,
      lastNumber_eq_firstNumber_succ (Nat.le_refl _) hg' hs⟩
    · rw [depthOf_levelStart]
      exact Nat.succ_ne_self _
    · rwa [depthOf_levelStart]
  · obtain ⟨above, rfl⟩ := Nat.exists_eq_succ_of_ne_zero (Nat.ne_zero_of_lt hlt)
    have habove : g.coldBegin ≤ above := Nat.le_of_lt_succ hlt
    have hs : ¬ g.StartsChunk (above + 1) := by
      rw [startsChunk_iff hw hc hd]
      simp [hn, hg, Nat.ne_of_gt hlt]
    refine ⟨_, _, g.depthOf_levelStart _, ?_,
      locate_levelStart hw hc hd (hr.of_le (Nat.le_succ _)),
      locate_levelLast hw hc habove (hr.of_le (by omega)), ?_,
      (lastNumber_eq_firstNumber_succ habove hg hs).symm⟩
    · rw [depthOf_levelLast]
      exact Nat.ne_of_lt (Nat.lt_succ_self _)
    · rw [depthOf_levelLast]
      exact fun h => hg ⟨h.1, Nat.lt_succ_of_lt h.2⟩

theorem sharesChunk_of_not_grows (hd : g.coldBegin ≤ d) (hr : g.Reaches (d + 1))
    (hn : ¬ g.nominalDepth ≤ g.coldBegin) (hg : ¬ g.Grows d) : g.SharesChunk d := by
  obtain ⟨i, j, rfl, hj, hp, hq, hg', hnumber⟩ := exists_crossing hw hc hd hr hn hg
  exact ⟨i, j, _, _, rfl, hj, hp, hq, chunkStart_eq_of_not_grows hg hg' hnumber⟩

/-- Past an aligned depth every depth starts a chunk, so its chunks hold no deeper nodes, and as it
    starts a chunk itself, no shallower ones. -/
theorem not_sharesChunk (ha : g.Aligned d) : ¬ g.SharesChunk d := by
  intro h
  obtain ⟨i, j, p, q, rfl, hne, hp, hq, hstart⟩ := h
  obtain ⟨hi, _, rfl⟩ := (locate_eq_ok_iff hw hc).1 hp
  obtain ⟨hj, _, rfl⟩ := (locate_eq_ok_iff hw hc).1 hq
  have hdeep : g.depthOf i ≤ g.depthOf j := by
    rw [← depthOf_chunkStart hi ha.1, hstart]
    exact depthOf_le_depthOf (chunkStart_le hj)
  have hsj : g.StartsChunk (g.depthOf j) := by
    rw [startsChunk_iff hw hc (levelStart_le_iff.1 hj)]
    rcases (aligned_iff hw hc (levelStart_le_iff.1 hi)).1 ha with hn | hg
    · exact Or.inl hn
    · exact Or.inr (Or.inr ⟨hg.1, Nat.lt_of_lt_of_le hg.2 hdeep⟩)
  exact hne (depthOf_eq_of_chunkStart_eq hi hj hstart ha.1 hsj).symm

theorem aligned_iff_not_sharesChunk (hd : g.coldBegin ≤ d) (hr : g.Reaches (d + 1)) :
    g.Aligned d ↔ ¬ g.SharesChunk d := by
  constructor
  · exact not_sharesChunk hw hc
  · intro h
    by_contra ha
    obtain ⟨hn, hg⟩ := not_or.1 (mt (aligned_iff hw hc hd).2 ha)
    exact h (sharesChunk_of_not_grows hw hc hd hr hn hg)

/-! ## Which depths share numbers -/

/-- The nodes in the torn chunk bear the number of the first larger one. -/
theorem number_of_inTornChunk {i : Nat} (ht : g.InTornChunk i) :
    (g.place i).number = g.fixedChunks := by
  obtain ⟨_, hend, hseam⟩ := ht
  have hg := not_grows_of_lt hseam
  have hi : g.coldIndexBegin ≤ i := Nat.le_trans g.coldIndexBegin_le_fixedEnd hend
  have hge := number_lt_fixedChunks_iff hw hc hi hg
  have hle : (g.place i).number ≤ g.fixedChunks := by
    have hspan : i - g.coldIndexBegin ≤ g.fixedSpan := Nat.sub_le_sub_right (Nat.le_of_lt hseam) _
    unfold place
    rw [runAt_of_not_grows hg]
    change 0 + (i - g.coldIndexBegin) / g.capacity ≤ g.fixedChunks
    rw [Nat.zero_add]
    exact Nat.div_le_div_right hspan
  omega

theorem sharesNumber_of_not_grows (hd : g.coldBegin ≤ d) (hr : g.Reaches (d + 1))
    (hn : ¬ g.nominalDepth ≤ g.coldBegin) (hg : ¬ g.Grows d) : g.SharesNumber d := by
  obtain ⟨i, j, hi, hj, hp, hq, _, hnumber⟩ := exists_crossing hw hc hd hr hn hg
  exact ⟨i, j, _, _, hi, hj, hp, hq, hnumber⟩

/-- The first larger chunk has the number of whole chunks of base size above it. -/
theorem firstNumber_sparseBegin_succ (hdyn : g.dynamic = true) :
    g.firstNumber (g.sparseBegin + 1) = g.fixedChunks := by
  have hnumber := (place_firstNode hw hc g.fixedChunks).1
  rwa [firstNode_fixedChunks hw hc hdyn] at hnumber

/-- If the seam does not fit, the first larger chunk has the number of the torn one. -/
theorem sharesNumber_sparseBegin_succ (hdyn : g.dynamic = true)
    (hr : g.Reaches (g.sparseBegin + 1)) (hn : ¬ g.nominalDepth ≤ g.coldBegin) :
    g.SharesNumber (g.sparseBegin + 1) := by
  have hlt := fixedEnd_lt hw hc hn
  have hd : g.coldBegin ≤ g.sparseBegin + 1 := Nat.le_succ_of_le hw.coldBegin_le_sparseBegin
  refine ⟨_, _, _, _, g.depthOf_levelStart _, Nat.ne_of_lt (lt_levelStart_iff.1 hlt),
    locate_levelStart hw hc hd hr, locate_fixedEnd hw hc hr hlt, ?_⟩
  exact (firstNumber_sparseBegin_succ hw hc hdyn).trans (place_fixedEnd hw hc hlt).1.symm

/-- A depth of larger chunks shares numbers only if it is the first one. -/
theorem eq_sparseBegin_succ_of_sharesNumber (hd : g.coldBegin ≤ d) (hg : g.Grows d)
    (h : g.SharesNumber d) : d = g.sparseBegin + 1 := by
  have ha : g.Aligned d := (aligned_iff hw hc hd).2 (Or.inr hg)
  obtain ⟨i, j, p, q, rfl, hne, hp, hq, hnumber⟩ := h
  obtain ⟨hi, _, rfl⟩ := (locate_eq_ok_iff hw hc).1 hp
  obtain ⟨hj, _, rfl⟩ := (locate_eq_ok_iff hw hc).1 hq
  have hti : ¬ g.InTornChunk i := fun ht => not_grows_of_lt ht.2.2 hg
  by_cases htj : g.InTornChunk j
  · -- the number of the torn chunk leads to the first node past the seam
    have hfirst := (firstNode_number_iff hw hc hi).2 hti
    rw [hnumber, number_of_inTornChunk hw hc htj, firstNode_fixedChunks hw hc hg.1] at hfirst
    rw [← depthOf_chunkStart hi ha.1, ← hfirst, depthOf_levelStart]
  · have hstart := (chunkStart_eq_iff hw hc hi hj hnumber).2 (iff_of_false hti htj)
    exact absurd ⟨i, j, _, _, rfl, hne, hp, hq, hstart⟩ (not_sharesChunk hw hc ha)

/-- If no chunk of base size crosses a level boundary, no two depths share a number. -/
theorem not_sharesNumber (hd : g.coldBegin ≤ d) (hn : g.nominalDepth ≤ g.coldBegin) :
    ¬ g.SharesNumber d := by
  have ha : g.Aligned d := (aligned_iff hw hc hd).2 (Or.inl hn)
  intro h
  obtain ⟨i, j, p, q, hdepth, hne, hp, hq, hnumber⟩ := h
  obtain ⟨hi, _, rfl⟩ := (locate_eq_ok_iff hw hc).1 hp
  obtain ⟨hj, _, rfl⟩ := (locate_eq_ok_iff hw hc).1 hq
  have ht := not_inTornChunk hw hc (fun _ => hn)
  have hstart := (chunkStart_eq_iff hw hc hi hj hnumber).2 (iff_of_false (ht i) (ht j))
  exact not_sharesChunk hw hc ha ⟨i, j, _, _, hdepth, hne, hp, hq, hstart⟩

theorem sharesNumber_iff (hd : g.coldBegin ≤ d) (hr : g.Reaches (d + 1)) :
    g.SharesNumber d ↔
      ¬ g.nominalDepth ≤ g.coldBegin ∧ (g.Grows d → d = g.sparseBegin + 1) := by
  constructor
  · intro h
    exact ⟨fun hn => not_sharesNumber hw hc hd hn h,
      fun hg => eq_sparseBegin_succ_of_sharesNumber hw hc hd hg h⟩
  · intro h
    obtain ⟨hn, hfirst⟩ := h
    by_cases hg : g.Grows d
    · obtain rfl := hfirst hg
      exact sharesNumber_sparseBegin_succ hw hc hg.1 (hr.of_le (Nat.le_succ _)) hn
    · exact sharesNumber_of_not_grows hw hc hd hr hn hg

/-! ## What alignment tells -/

theorem sharesNumber_of_not_aligned (hd : g.coldBegin ≤ d) (hr : g.Reaches (d + 1))
    (ha : ¬ g.Aligned d) : g.SharesNumber d := by
  rw [aligned_iff hw hc hd, not_or] at ha
  exact sharesNumber_of_not_grows hw hc hd hr ha.1 ha.2

/-- An aligned depth shares no number, unless it is the first one past a seam that does not fit. -/
theorem aligned_iff_not_sharesNumber_iff (hd : g.coldBegin ≤ d) (hr : g.Reaches (d + 1)) :
    (g.Aligned d ↔ ¬ g.SharesNumber d) ↔ g.SeamFits ∨ d ≠ g.sparseBegin + 1 := by
  rw [aligned_iff hw hc hd, sharesNumber_iff hw hc hd hr]
  constructor
  · intro htells
    by_contra hcon
    obtain ⟨hs, hseam⟩ := not_or.1 hcon
    obtain rfl := not_not.1 hseam
    obtain ⟨hdyn, hcross⟩ := not_forall.1 hs
    obtain ⟨_, hn⟩ := not_forall.1 hcross
    exact htells.1 (Or.inr ⟨hdyn, Nat.lt_succ_self _⟩) ⟨hn, fun _ => rfl⟩
  · intro h
    by_cases hn : g.nominalDepth ≤ g.coldBegin
    · exact iff_of_true (Or.inl hn) (fun hshared => hshared.1 hn)
    · by_cases hg : g.Grows d
      · have hfirst : d ≠ g.sparseBegin + 1 :=
          h.resolve_left (fun hs => hn (hs hg.1 (hr.of_le (Nat.le_succ_of_le hg.2))))
        exact iff_of_true (Or.inr hg) (fun hshared => hfirst (hshared.2 hg))
      · exact iff_of_false (not_or.2 ⟨hn, hg⟩)
          (fun hnot => hnot ⟨hn, fun h => absurd h hg⟩)

end

end ChunkedTree.Geometry

namespace ChunkedTree

open ChunkedTree.Geometry

variable {c : Config} {g : Geometry} {d : Nat}

/-- **Alignment and shared numbers.** For a built tree and a chunked depth with the next one within
    reach: the test for alignment answers; a walk of the depth is accepted, and its row in the
    layout is not marked as shared, exactly if it is aligned; a depth that is not aligned shares a
    number; and an aligned one shares none exactly if the seam fits or the depth is not the one
    after the sparse depth. -/
theorem isAligned?_iff_not_sharesNumber (hb : c.build = .ok g) (hc : g.hasCold = true)
    (hd : g.coldBegin ≤ d) (hr : g.Reaches (d + 1)) :
    ∃ aligned, g.isAligned? d = .ok aligned ∧
      ((∃ chunks, g.walk d = .ok chunks) ↔ aligned = true) ∧
      (∃ row, g.layout? d (d + 1) = .ok [row] ∧ row.shared = !aligned) ∧
      (aligned = true ↔ ¬ g.SharesChunk d) ∧ (aligned = false → g.SharesNumber d) ∧
      ((aligned = true ↔ ¬ g.SharesNumber d) ↔ g.SeamFits ∨ d ≠ g.sparseBegin + 1) := by
  have hw := Config.wellFormed_of_build hb
  refine ⟨_, isAligned?_of_reaches hw hc hd hr, ?_, ?_, ?_, ?_, ?_⟩
  · rw [decide_eq_true_eq]
    constructor
    · intro h
      obtain ⟨chunks, hchunks⟩ := h
      obtain ⟨_, _, _, ha, _⟩ := (walk_eq_ok_iff hw).1 hchunks
      exact ha
    · intro ha
      exact ⟨_, (walk_eq_ok_iff hw).2 ⟨hc, hd, hr, ha, rfl⟩⟩
  · refine ⟨g.layoutRow d, ?_, rfl⟩
    rw [layout?_of_reaches hw hc hr, Nat.max_eq_left hd, Nat.add_sub_cancel_left]
    rfl
  · rw [decide_eq_true_eq]
    exact aligned_iff_not_sharesChunk hw hc hd hr
  · intro ha
    exact sharesNumber_of_not_aligned hw hc hd hr (of_decide_eq_false ha)
  · rw [decide_eq_true_eq]
    exact aligned_iff_not_sharesNumber_iff hw hc hd hr

/-- Depth 8 is two past the sparse depth: even where the seam does not fit it shares no number. -/
theorem tornQuadtree_not_sharesNumber :
    Config.tornQuadtree.build = .ok tornQuadtree ∧ tornQuadtree.hasCold = true ∧
      tornQuadtree.coldBegin ≤ 8 ∧ tornQuadtree.Reaches 9 ∧ ¬ tornQuadtree.SeamFits ∧
      tornQuadtree.isAligned? 8 = .ok true ∧ ¬ tornQuadtree.SharesNumber 8 := by
  have hd : tornQuadtree.coldBegin ≤ 8 := by decide
  have hr : tornQuadtree.Reaches 9 := by decide
  obtain ⟨aligned, ha, _, _, _, _, htells⟩ :=
    isAligned?_iff_not_sharesNumber tornQuadtree_build rfl hd hr
  have ha' : tornQuadtree.isAligned? 8 = .ok true := rfl
  obtain rfl := Except.ok.inj (ha'.symm.trans ha)
  exact ⟨tornQuadtree_build, rfl, hd, hr, by decide, ha, (htells.2 (Or.inr (by decide))).1 rfl⟩

/-- Depth 7 follows the sparse depth: it is aligned, and yet its first node 5461 and node 5205 at
    depth 6 bear the number 5. -/
theorem tornQuadtree_aligned_sharesNumber :
    Config.tornQuadtree.build = .ok tornQuadtree ∧ tornQuadtree.hasCold = true ∧
      tornQuadtree.coldBegin ≤ 7 ∧ tornQuadtree.Reaches 9 ∧
      tornQuadtree.isAligned? 7 = .ok true ∧ tornQuadtree.SharesNumber 7 :=
  ⟨tornQuadtree_build, rfl, by decide, by decide, rfl, 5461, 5205, _, _, rfl, by decide, rfl, rfl,
    rfl⟩

/-- **Which depths are aligned.** For a built tree and a chunked depth with the next one within
    reach, the test for alignment answers, and says yes exactly if the chunked range begins no
    shallower than the nominal depth, or the depth lies past the sparse depth of a dynamic tree. -/
theorem isAligned?_eq_decide (hb : c.build = .ok g) (hc : g.hasCold = true) (hd : g.coldBegin ≤ d)
    (hr : g.Reaches (d + 1)) :
    g.isAligned? d =
      .ok (decide (g.nominalDepth ≤ g.coldBegin ∨ g.dynamic = true ∧ g.sparseBegin < d)) := by
  have hw := Config.wellFormed_of_build hb
  have haligned : g.Aligned d ↔
      g.nominalDepth ≤ g.coldBegin ∨ g.dynamic = true ∧ g.sparseBegin < d := aligned_iff hw hc hd
  rw [isAligned?_of_reaches hw hc hd hr, decide_eq_decide.2 haligned]

/-- Chunks are as large as depth 5 and begin with depth 4: of the depths up to the sparse one, 6,
    none is aligned, and all past it are. -/
theorem tornQuadtree_isAligned? :
    Config.tornQuadtree.build = .ok tornQuadtree ∧ tornQuadtree.hasCold = true ∧
      tornQuadtree.coldBegin ≤ 6 ∧ tornQuadtree.Reaches 8 ∧
      tornQuadtree.isAligned? 6 = .ok false ∧ tornQuadtree.isAligned? 7 = .ok true := by
  have hd : tornQuadtree.coldBegin ≤ 6 := by decide
  have hr : tornQuadtree.Reaches 8 := by decide
  exact ⟨tornQuadtree_build, rfl, hd, hr,
    isAligned?_eq_decide tornQuadtree_build rfl hd (hr.of_le (by decide)),
    isAligned?_eq_decide tornQuadtree_build rfl (Nat.le_succ_of_le hd) hr⟩

end ChunkedTree
