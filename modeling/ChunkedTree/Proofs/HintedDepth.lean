/-
  The sparse depth that a hint places.

  A hint of the number of points is taken if no sparse depth is given. The depth that holds so many
  points is a rounded logarithm and no shallower than the chunked depths; the sparse depth lies 15
  percent further down, rounded up. Both are least depths with a property (`isLeast_clog_hint`,
  `isLeast_sparseFrom`), and the property is harder to have for larger hints and deeper chunked
  depths, so the sparse depth does not decrease with them (`sparseFrom_le_sparseFrom`).

  Beside a sparse depth the hint is only kept. The parameters are built with any other one, and the
  geometry is the same but for the hint (`build_of_hint`), which no question about it looks at.
-/
import ChunkedTree.Layout
import ChunkedTree.Walk
import ChunkedTree.Proofs.Consistency
import ChunkedTree.Proofs.Verdict

namespace ChunkedTree

namespace Config

variable {c c' : Config} {g g' : Geometry} {shape : Shape}

/-! ## The depth that holds the hint -/

theorem one_lt_factor (shape : Shape) : 1 < shape.factor :=
  Level.two_le_branching shape.dimensions_pos

theorem isLeast_clog_hint (c : Config) (shape : Shape) :
    IsLeast {d | c.numPointsHint.toNat ≤ shape.factor ^ d}
      (Nat.clog shape.factor c.numPointsHint.toNat) :=
  Logarithm.isLeast_clog (one_lt_factor shape) _

theorem holdingDepth_le_holdingDepth (hhint : c.numPointsHint ≤ c'.numPointsHint)
    (hbase : c.baseEnd ≤ c'.baseEnd) : c.holdingDepth shape ≤ c'.holdingDepth shape :=
  max_le_max hbase (Nat.clog_mono_right _ (UInt64.le_iff_toNat_le.1 hhint))

/-! ## Fifteen percent past it -/

section

variable (h : c.isHinted = true)
include h

theorem isLeast_sparseFrom :
    IsLeast {s | 115 * c.holdingDepth shape ≤ 100 * s} (c.sparseFrom shape) := by
  have hceil (s : Nat) : c.sparseFrom shape ≤ s ↔ 115 * c.holdingDepth shape ≤ 100 * s := by
    unfold sparseFrom
    rw [if_pos (isHinted_iff.1 h)]
    exact ceilDiv_le_iff_le_mul (by decide)
  exact ⟨(hceil _).1 (Nat.le_refl _), fun s hs => (hceil s).2 hs⟩

theorem sparseFrom_le_sparseFrom (h' : c'.isHinted = true)
    (hhint : c.numPointsHint ≤ c'.numPointsHint) (hbase : c.baseEnd ≤ c'.baseEnd) :
    c.sparseFrom shape ≤ c'.sparseFrom shape := by
  apply (isLeast_sparseFrom h').mono (isLeast_sparseFrom h)
  intro s hs
  exact Nat.le_trans (Nat.mul_le_mul_left _ (holdingDepth_le_holdingDepth hhint hbase)) hs

variable (hmin : minBaseEnd ≤ c.baseEnd)
include hmin

/-- The headroom is at least one depth, as the chunked depths do not begin with the root. -/
theorem holdingDepth_lt_sparseFrom : c.holdingDepth shape < c.sparseFrom shape := by
  have hle : 115 * c.holdingDepth shape ≤ 100 * c.sparseFrom shape := (isLeast_sparseFrom h).1
  have hbase : c.baseEnd ≤ c.holdingDepth shape := Nat.le_max_left _ _
  unfold minBaseEnd at hmin
  omega

theorem hint_lt_pow_sparseFrom :
    c.numPointsHint.toNat < shape.factor ^ c.sparseFrom shape := by
  have hdeeper : Nat.clog shape.factor c.numPointsHint.toNat < c.sparseFrom shape :=
    Nat.lt_of_le_of_lt (Nat.le_max_right _ _) (holdingDepth_lt_sparseFrom h hmin)
  calc c.numPointsHint.toNat
      ≤ shape.factor ^ Nat.clog shape.factor c.numPointsHint.toNat := (c.isLeast_clog_hint shape).1
    _ < shape.factor ^ c.sparseFrom shape := Nat.pow_lt_pow_right (one_lt_factor shape) hdeeper

end

/-! ## What is built -/

theorem shape_eq_of_build (hb : c.build = .ok g) (hb' : c'.build = .ok g')
    (hdims : c'.treeDimensions = c.treeDimensions) : g'.shape = g.shape := by
  obtain ⟨shape, _, hshape, _, _, rfl, _⟩ := build_eq_ok_iff.1 hb
  obtain ⟨shape', _, hshape', _, _, rfl, _⟩ := build_eq_ok_iff.1 hb'
  have hsame : c'.shape? = c.shape? := by
    unfold shape?
    rw [hdims]
  exact Except.ok.inj (hshape'.symm.trans (hsame.trans hshape))

theorem sparseBegin_of_build (hb : c.build = .ok g) : g.sparseBegin = c.sparseFrom g.shape := by
  obtain ⟨shape, sparse, _, _, hsparse, rfl, _⟩ := build_eq_ok_iff.1 hb
  rw [sparseBegin?_eq_ite] at hsparse
  split at hsparse
  · cases hsparse
  · exact (Except.ok.inj hsparse).symm

theorem baseEnd_of_build (hb : c.build = .ok g) : g.coldBegin = c.baseEnd := by
  obtain ⟨_, _, _, _, _, rfl, _⟩ := build_eq_ok_iff.1 hb
  rfl

/-- Beside a sparse depth any hint is as good as another. -/
theorem build_of_hint (hb : c.build = .ok g) (hs : c.sparseDepth ≠ 0) (hint : UInt64) :
    { c with numPointsHint := hint }.build = .ok { g with pointHint := hint.toNat } := by
  obtain ⟨shape, sparse, hshape, hbase, hsparse, rfl, hcap, hnom, hword⟩ := build_eq_ok_iff.1 hb
  have hnot {c : Config} (hs : c.sparseDepth ≠ 0) : c.isHinted = false :=
    Bool.eq_false_iff.2 (fun h => hs (isHinted_iff.1 h).2)
  have hs' : { c with numPointsHint := hint }.sparseDepth ≠ 0 := hs
  refine build_eq_ok_iff.2 ⟨shape, sparse, hshape, hbase, ?_, ?_, hcap, hnom, hword⟩
  · unfold sparseBegin? at hsparse ⊢
    rw [hnot hs, if_neg Bool.false_ne_true] at hsparse
    rw [hnot hs', if_neg Bool.false_ne_true]
    exact hsparse
  · unfold geometry
    rw [hnot hs, hnot hs']
    rfl

end Config

/-! ## What a geometry is asked -/

/-- The two geometries have the same boundaries, and tell the same of every depth, node and chunk
    number. -/
structure Geometry.AnswersAlike (g g' : Geometry) : Prop where
  boundaries : g'.boundaries = g.boundaries
  depthRegion : ∀ d, g'.depthRegion d = g.depthRegion d
  nodeRegion : ∀ i, g'.nodeRegion i = g.nodeRegion i
  isStored : ∀ d, g'.isStored d = g.isStored d
  isNullNode : ∀ i, g'.isNullNode i = g.isNullNode i
  isBaseNode : ∀ i, g'.isBaseNode i = g.isBaseNode i
  isColdNode : ∀ i, g'.isColdNode i = g.isColdNode i
  locate : ∀ i, g'.locate i = g.locate i
  locateNumber : ∀ n, g'.locateNumber n = g.locateNumber n
  chunkCount? : ∀ d, g'.chunkCount? d = g.chunkCount? d
  firstNumber? : ∀ d, g'.firstNumber? d = g.firstNumber? d
  numberRange? : ∀ d, g'.numberRange? d = g.numberRange? d
  isAligned? : ∀ d, g'.isAligned? d = g.isAligned? d
  mapChunks : ∀ {α : Type} d (f : Placement → α), g'.mapChunks d f = g.mapChunks d f
  layout? : ∀ begin stop, g'.layout? begin stop = g.layout? begin stop

theorem Geometry.answersAlike_of_pointHint (g : Geometry) (hint : Nat) :
    g.AnswersAlike { g with pointHint := hint } where
  boundaries := rfl
  depthRegion _ := rfl
  nodeRegion _ := rfl
  isStored _ := rfl
  isNullNode _ := rfl
  isBaseNode _ := rfl
  isColdNode _ := rfl
  locate _ := rfl
  locateNumber _ := rfl
  chunkCount? _ := rfl
  firstNumber? _ := rfl
  numberRange? _ := rfl
  isAligned? _ := rfl
  mapChunks _ _ := rfl
  layout? _ _ := by
    -- the recursion over the rows is stuck on an unknown count, and `mapM` compares row by row
    simp only [layout?, rows?_eq_mapM]
    rfl

open ChunkedTree.Config

variable {c : Config} {g : Geometry}

/-- **What a hint does.** For parameters that are built with a hint and without a sparse depth, the
    sparse depth is the least one 15 percent past the depth that holds the hint, which is the larger
    of the first chunked depth and the least one with as many nodes as the hint; it lies below that
    depth, has more nodes than the hint, and does not decrease as the hint and the first chunked
    depth grow. Beside a sparse depth every other hint gives a geometry that answers alike. -/
theorem hint_places_sparseBegin (hb : c.build = .ok g) :
    (c.numPointsHint ≠ 0 → c.sparseDepth = 0 →
      ∃ least, IsLeast {d | c.numPointsHint.toNat ≤ g.factor ^ d} least ∧
        IsLeast {s | 115 * max g.coldBegin least ≤ 100 * s} g.sparseBegin ∧
        max g.coldBegin least < g.sparseBegin ∧
        c.numPointsHint.toNat < g.factor ^ g.sparseBegin ∧
        ∀ (c' : Config) (g' : Geometry), c'.build = .ok g' →
          c'.treeDimensions = c.treeDimensions → c'.sparseDepth = 0 →
          c.numPointsHint ≤ c'.numPointsHint → g.coldBegin ≤ g'.coldBegin →
          g.sparseBegin ≤ g'.sparseBegin) ∧
    (c.sparseDepth ≠ 0 → ∀ hint,
      { c with numPointsHint := hint }.build = .ok { g with pointHint := hint.toNat } ∧
        g.AnswersAlike { g with pointHint := hint.toNat }) := by
  have hbase := baseEnd_of_build hb
  have hsparse := sparseBegin_of_build hb
  constructor
  · intro hhint hnone
    have h := isHinted_iff.2 ⟨hhint, hnone⟩
    have hmin : minBaseEnd ≤ c.baseEnd := hbase ▸ (wellFormed_of_build hb).minBaseEnd_le
    refine ⟨_, c.isLeast_clog_hint g.shape, ?_, ?_, ?_, ?_⟩
    · rw [hbase, hsparse]
      exact isLeast_sparseFrom h
    · rw [hbase, hsparse]
      exact holdingDepth_lt_sparseFrom h hmin
    · rw [hsparse]
      exact hint_lt_pow_sparseFrom h hmin
    · intro c' g' hb' hdims hnone' hle hcold
      have h' : c'.isHinted = true := by
        refine isHinted_iff.2 ⟨?_, hnone'⟩
        intro hzero
        rw [hzero, UInt64.le_zero_iff] at hle
        exact hhint hle
      rw [hbase, baseEnd_of_build hb'] at hcold
      rw [hsparse, sparseBegin_of_build hb', shape_eq_of_build hb hb' hdims]
      exact sparseFrom_le_sparseFrom h h' hle hcold
  · intro hs hint
    exact ⟨build_of_hint hb hs hint, g.answersAlike_of_pointHint _⟩

/-- A thousand million nodes need ten depths of an octree, so its sparse depth is the twelfth, and
    two thousand times as many do not move it up. Beside the sparse depth of a quadtree they move
    nothing. -/
theorem hintedOctree_hint_places_sparseBegin :
    Config.hintedOctree.build = .ok Geometry.hintedOctree ∧
      Config.hintedOctree.numPointsHint ≠ 0 ∧ Config.hintedOctree.sparseDepth = 0 ∧
      (∃ least, IsLeast {d | 1000000000 ≤ 8 ^ d} least ∧
        IsLeast {s | 115 * max 6 least ≤ 100 * s} Geometry.hintedOctree.sparseBegin ∧
        Geometry.hintedOctree.sparseBegin ≤ 17) ∧
      Config.tornQuadtree.build = .ok Geometry.tornQuadtree ∧
      Config.tornQuadtree.sparseDepth ≠ 0 ∧
      Geometry.tornQuadtree.AnswersAlike
        { Geometry.tornQuadtree with pointHint := 1000000000 } := by
  have hoctree : Config.hintedOctree.build = .ok Geometry.hintedOctree := by decide
  have hlarger : { Config.hintedOctree with numPointsHint := 2000000000000 }.build =
      .ok { Config.hintedOctree.geometry .octree 17 with pointHint := 2000000000000 } := by decide
  obtain ⟨least, hleast, hsparse, _, _, hgrows⟩ :=
    (hint_places_sparseBegin hoctree).1 (by decide) rfl
  have hquadtree := (hint_places_sparseBegin Geometry.tornQuadtree_build).2 (by decide) 1000000000
  exact ⟨hoctree, by decide, rfl,
    ⟨least, hleast, hsparse, hgrows _ _ hlarger rfl rfl (by decide) (by decide)⟩,
    Geometry.tornQuadtree_build, by decide, hquadtree.2⟩

end ChunkedTree
