/-
  The layout as a report on the walks.

  A row counts the chunks from the one with the first node of its depth to the one with the last.
  At an aligned depth these are the chunks that its nodes fill (`layoutRow_count_of_aligned`), and
  a walk takes just them. At any other depth they are one more (`layoutRow_count_of_not_aligned`),
  whether its nodes lie in a part of one chunk or reach from the middle of one into the middle of
  another, and a walk is refused.

  `Reports` says so of a row. Every row of every range of depths does so.
-/
import ChunkedTree.Proofs.DepthWalk

namespace ChunkedTree.Geometry

variable {g : Geometry} {d : Nat}

/-- The row agrees with the walk of its depth. -/
structure Reports (g : Geometry) (row : LayoutRow) : Prop where
  /-- Depths that share no chunks are those that can be walked. -/
  shared_iff : row.shared = false ↔ ∃ chunks, g.walk row.depth = .ok chunks
  /-- A walk takes as many chunks as are counted, with the numbers from the first one on. -/
  walked : ∀ chunks, g.walk row.depth = .ok chunks → ∃ ps, chunks.toList = .ok ps ∧
    (∀ m, chunks.take m = .ok (ps.take m)) ∧ ps.length = row.count ∧
    ∀ k p, ps[k]? = some p → p.depth = row.depth ∧ p.number = row.firstNumber + k ∧
      p.capacity = row.capacity
  /-- These chunks hold the nodes of the depth. -/
  filled : row.shared = false → Level.size? g.dimensions row.depth = .ok (row.count * row.capacity)
  /-- Other depths are refused, and one more chunk is counted than they fill. -/
  refused : row.shared = true → g.walk row.depth = .error (.refused (.shared row.depth)) ∧
    ∃ count, g.chunkCount? row.depth = .ok count ∧ row.count = count + 1

section

variable (hw : g.WellFormed) (hc : g.hasCold = true)
include hw hc

/-! ## Counting from the first node to the last one -/

/-- Depths above the nominal one lie in the first chunk and fill none. -/
theorem lastNumber_of_lt_nominalDepth (hg : ¬ g.Grows d) (hn : d < g.nominalDepth) :
    g.lastNumber d = 0 ∧ g.firstNumber d = 0 ∧ g.chunkCount d = 0 := by
  have hnext : g.levelStart (d + 1) < g.capacity := by
    rw [capacity_eq_size hw hc]
    exact Nat.lt_of_le_of_lt (levelStart_le_levelStart hn) (Level.start_lt_size g.dimensions_pos _)
  have hlast := g.levelLast_lt d
  have hsize := g.levelStart_succ d
  rw [lastNumber_of_not_grows hg, firstNumber_of_not_grows hg, chunkCount_of_not_grows hg]
  exact ⟨Nat.div_eq_of_lt (by omega), Nat.div_eq_of_lt (by omega), Nat.div_eq_of_lt (by omega)⟩

/-- Depths that start in the middle of a chunk end in the middle of one, as many chunks later as
    they fill. -/
theorem lastNumber_of_nominalDepth_le (hd : g.coldBegin < d) (hg : ¬ g.Grows d)
    (hcross : ¬ g.nominalDepth ≤ g.coldBegin) (hn : g.nominalDepth ≤ d) :
    g.lastNumber d = g.firstNumber d + g.chunkCount d := by
  have hle := Nat.le_of_lt hd
  have hcap := capacity_pos hw hc
  have hsize : Level.size g.dimensions d =
      g.capacity * Level.size g.dimensions (d - g.nominalDepth) := by
    rw [capacity_eq_size hw hc, ← Level.size_add, Nat.add_sub_cancel' hn]
  have hbefore : g.coldIndexBegin < g.levelStart d := Level.start_lt_start g.dimensions_pos hd
  obtain ⟨a, ha⟩ := Nat.exists_eq_add_of_lt (Nat.sub_pos_of_lt hbefore)
  have hspan : g.levelLast d - g.coldIndexBegin = a + Level.size g.dimensions d := by
    unfold levelLast
    rw [levelStart_succ]
    omega
  have hdvd : ¬ g.capacity ∣ a + 1 := by
    rw [show a + 1 = g.levelStart d - g.coldIndexBegin by omega,
      capacity_dvd_levelStart_sub_iff hw hc hle]
    omega
  rw [lastNumber_of_not_grows hg, firstNumber_of_not_grows hg, chunkCount_of_not_grows hg, hspan,
    hsize, Nat.add_mul_div_left _ _ hcap, Nat.mul_div_cancel_left _ hcap, ha, Nat.zero_add,
    Nat.succ_div_of_not_dvd hdvd]

variable (hd : g.coldBegin ≤ d)
include hd

theorem lastNumber_of_not_aligned (ha : ¬ g.Aligned d) :
    g.lastNumber d = g.firstNumber d + g.chunkCount d := by
  obtain ⟨hcross, hg⟩ := not_or.1 (mt (aligned_iff hw hc hd).2 ha)
  rcases Nat.lt_or_ge d g.nominalDepth with hn | hn
  · obtain ⟨hlast, hfirst, hcount⟩ := lastNumber_of_lt_nominalDepth hw hc hg hn
    rw [hlast, hfirst, hcount]
  · exact lastNumber_of_nominalDepth_le hw hc (by omega) hg hcross hn

theorem lastNumber_of_aligned (ha : g.Aligned d) :
    g.lastNumber d + 1 = g.firstNumber d + g.chunkCount d := by
  have hdepth := g.depthOf_levelLast d
  have hupper : g.lastNumber d < g.firstNumber d + g.chunkCount d := by
    have hlt := number_lt_of_aligned hw hc (coldIndexBegin_le_levelLast hd) (by rwa [hdepth])
    rwa [hdepth] at hlt
  -- the last chunk that the depth fills begins at or before its last node
  obtain ⟨k, hk⟩ := Nat.exists_eq_succ_of_ne_zero (Nat.ne_of_gt (chunkCount_pos hw hc hd ha))
  have hdepth' := depthOf_firstNode_of_aligned hw hc hd ha (k := k) (by omega)
  have hnode : g.firstNode (g.firstNumber d + k) ≤ g.levelLast d := by
    have hlt := (depthOf_eq_iff.1 hdepth').2
    unfold levelLast
    omega
  have hlower := number_le_number hnode (hdepth'.trans hdepth.symm)
  rw [(place_firstNode hw hc _).1] at hlower
  unfold lastNumber at hupper ⊢
  omega

theorem layoutRow_count_of_aligned (ha : g.Aligned d) : (g.layoutRow d).count = g.chunkCount d := by
  change g.lastNumber d + 1 - g.firstNumber d = _
  rw [lastNumber_of_aligned hw hc hd ha, Nat.add_sub_cancel_left]

theorem layoutRow_count_of_not_aligned (ha : ¬ g.Aligned d) :
    (g.layoutRow d).count = g.chunkCount d + 1 := by
  change g.lastNumber d + 1 - g.firstNumber d = _
  rw [lastNumber_of_not_aligned hw hc hd ha, Nat.add_assoc, Nat.add_sub_cancel_left]

/-! ## Rows and walks -/

theorem walk_of_not_aligned (hr : g.Reaches (d + 1)) (ha : ¬ g.Aligned d) :
    g.walk d = .error (.refused (.shared d)) := by
  apply walk_of_checkWalkable_error
  rw [checkWalkable_eq_ite hw hr, if_neg (not_not_intro hc), if_neg (Nat.not_lt_of_le hd),
    if_neg ha]

/-- The chunks that a depth fills have its capacity. -/
theorem capacity_placeNumber (ha : g.Aligned d) {k : Nat} (hk : k < g.chunkCount d) :
    (g.placeNumber (g.firstNumber d + k)).capacity = (g.runAt d).capacity := by
  obtain ⟨_, _, _, hcapacity⟩ := place_firstNode hw hc (g.firstNumber d + k)
  unfold placeNumber
  rw [hcapacity, ← runAt_depthOf_firstNode hw hc, depthOf_firstNode_of_aligned hw hc hd ha hk]

theorem reports_layoutRow (hr : g.Reaches (d + 1))
    (hs : g.dynamic = true → g.Reaches (g.sparseBegin + 1)) : g.Reports (g.layoutRow d) := by
  have hr' := hr.of_le (Nat.le_succ d)
  have hshared : (g.layoutRow d).shared = false ↔ g.Aligned d := by
    unfold layoutRow
    rw [Bool.not_eq_false', decide_eq_true_iff]
  constructor
  case shared_iff =>
    rw [hshared]
    constructor
    · intro ha
      exact ⟨_, (walk_eq_ok_iff hw).2 ⟨hc, hd, hr, ha, rfl⟩⟩
    · intro h
      obtain ⟨chunks, hchunks⟩ := h
      obtain ⟨_, _, _, ha, _⟩ := (walk_eq_ok_iff hw).1 hchunks
      exact ha
  case walked =>
    intro chunks hwalk
    obtain ⟨_, _, _, ha, rfl⟩ := (walk_eq_ok_iff hw (d := d)).1 hwalk
    refine ⟨g.depthChunks d, toList_of_aligned hw hc hd ha hr' hs,
      take_of_aligned hw hc hd ha hr' hs, ?_, ?_⟩
    · rw [length_depthChunks, layoutRow_count_of_aligned hw hc hd ha]
    · intro k p hp
      obtain ⟨hk, rfl⟩ := getElem?_depthChunks.1 hp
      exact ⟨depthOf_firstNode_of_aligned hw hc hd ha hk,
        (place_firstNode hw hc (g.firstNumber d + k)).1, capacity_placeNumber hw hc hd ha hk⟩
  case filled =>
    intro h
    have ha := hshared.1 h
    rw [layoutRow_count_of_aligned hw hc hd ha]
    exact Level.size?_eq_ok_iff.2 ⟨hr', (chunkCount_mul_capacity hw hc hd ha).symm⟩
  case refused =>
    intro h
    have ha : ¬ g.Aligned d := fun ha => Bool.false_ne_true ((hshared.2 ha).symm.trans h)
    exact ⟨walk_of_not_aligned hw hc hd hr ha, g.chunkCount d, chunkCount?_of_reaches hw hc hr,
      layoutRow_count_of_not_aligned hw hc hd ha⟩

end

end ChunkedTree.Geometry

namespace ChunkedTree

open ChunkedTree.Geometry

variable {c : Config} {g : Geometry}

/-- **The layout agrees with the walks.** For a built tree with chunks, the end of the depths within
    reach, and the seam if the tree is dynamic: the layout has one row for each of the depths that
    is chunked, in their order, and every row reports what a walk of its depth finds. -/
theorem layout_reports (hb : c.build = .ok g) (hc : g.hasCold = true) (begin : Nat) {stop : Nat}
    (hr : g.Reaches stop) (hs : g.dynamic = true → g.Reaches (g.sparseBegin + 1)) :
    ∃ rows, g.layout? begin stop = .ok rows ∧
      rows.map (·.depth) =
        List.range' (max begin g.coldBegin) (stop - max begin g.coldBegin) ∧
      ∀ row ∈ rows, g.Reports row := by
  have hw := Config.wellFormed_of_build hb
  refine ⟨_, layout?_of_reaches hw hc hr, ?_, ?_⟩
  · rw [List.map_map]
    exact List.map_id _
  · intro row hrow
    obtain ⟨d, hd, rfl⟩ := List.mem_map.1 hrow
    obtain ⟨hfirst, hlast⟩ := List.mem_range'_1.1 hd
    exact reports_layoutRow hw hc (Nat.le_trans (Nat.le_max_right _ _) hfirst)
      (hr.of_le (by omega)) hs

/-- Depth 6 fills four chunks and shares the first and the last of five; depth 7 fills four larger
    ones. -/
theorem tornQuadtree_layout_reports :
    Config.tornQuadtree.build = .ok tornQuadtree ∧ tornQuadtree.hasCold = true ∧
      tornQuadtree.Reaches 8 ∧ tornQuadtree.Reaches 7 ∧
      tornQuadtree.layout? 6 8 =
        .ok [⟨6, .sparse, 1, 5, 1024, true⟩, ⟨7, .sparse, 5, 4, 4096, false⟩] ∧
      tornQuadtree.Reports ⟨6, .sparse, 1, 5, 1024, true⟩ ∧
      tornQuadtree.Reports ⟨7, .sparse, 5, 4, 4096, false⟩ := by
  have hr : tornQuadtree.Reaches 8 := by decide
  have hs : tornQuadtree.Reaches 7 := by decide
  have hlayout : tornQuadtree.layout? 6 8 =
      .ok [⟨6, .sparse, 1, 5, 1024, true⟩, ⟨7, .sparse, 5, 4, 4096, false⟩] := rfl
  obtain ⟨rows, hrows, _, hreports⟩ := layout_reports tornQuadtree_build rfl 6 hr (fun _ => hs)
  obtain rfl := Except.ok.inj (hlayout.symm.trans hrows)
  exact ⟨tornQuadtree_build, rfl, hr, hs, hlayout, hreports _ (by simp), hreports _ (by simp)⟩

end ChunkedTree
