/-
  The parameters that rebuild a geometry.

  A built geometry holds words only, and without a sparse range it has the sparse depth, the hint
  and the dynamic flag of a tree that was never asked for one (`Rebuildable`). Each value that
  building derives is then a fixed point: derived from the geometry's own parameters it comes out
  as it stands (`parameters_baseEnd`, `parameters_coldEnd`, `parameters_sparseBegin?`), whichever
  way it was derived at first. The checks see the same values as then, so building from these
  parameters gives the same geometry again (`parameters_build`).
-/
import ChunkedTree.Proofs.WellFormed

namespace ChunkedTree

namespace Geometry

variable {g : Geometry}

/-- What lets the geometry's own parameters record it without loss. -/
structure Rebuildable (g : Geometry) : Prop where
  nullEnd_lt : g.nullEnd < UInt64.size
  baseEnd_lt : g.baseEnd < UInt64.size
  coldEnd_lt : g.coldEnd < UInt64.size
  sparseBegin_lt : g.sparseBegin < UInt64.size
  capacity_lt : g.capacity < UInt64.size
  pointHint_lt : g.pointHint < UInt64.size
  startDepth_lt : g.startDepth < UInt64.size
  sparseBegin_eq : g.hasSparse = false → g.sparseBegin = g.baseEnd
  pointHint_eq : g.hasSparse = false → g.pointHint = 0
  dynamic_eq : g.hasSparse = false → g.dynamic = false

/-- The word of a number is zero only if the number is. -/
theorem ofNat_eq_zero_iff {n : Nat} (h : n < UInt64.size) : UInt64.ofNat n = 0 ↔ n = 0 := by
  rw [← UInt64.toNat_inj, UInt64.toNat_ofNat_of_lt' h]
  rfl

/-! ## Each derived value is a fixed point -/

theorem parameters_shape? (g : Geometry) : g.parameters.shape? = .ok g.shape := by
  have hsmall : g.dimensions < UInt64.size := Nat.lt_trans g.dimensions_lt (by decide)
  have hdim : g.parameters.treeDimensions.toNat = g.shape.dimensions :=
    UInt64.toNat_ofNat_of_lt' hsmall
  unfold Config.shape?
  rw [Shape.ofDimensions?_eq_some_iff.2 hdim]

section

variable (hw : g.WellFormed) (hg : g.Rebuildable)
include hw hg

theorem parameters_baseEnd : g.parameters.baseEnd = g.baseEnd := by
  unfold Config.baseEnd parameters
  rw [UInt64.toNat_ofNat_of_lt' hg.nullEnd_lt, UInt64.toNat_ofNat_of_lt' hg.baseEnd_lt,
    Nat.max_eq_right hw.nullEnd_le]

theorem parameters_coldEnd : g.parameters.coldEnd = g.coldEnd := by
  unfold Config.coldEnd
  rw [parameters_baseEnd hw hg]
  unfold parameters
  rw [UInt64.toNat_ofNat_of_lt' hg.coldEnd_lt]
  by_cases hnone : g.coldEnd = 0
  · rw [if_pos ((ofNat_eq_zero_iff hg.coldEnd_lt).2 hnone), hnone]
  · rw [if_neg (fun h => hnone ((ofNat_eq_zero_iff hg.coldEnd_lt).1 h))]
    exact Nat.max_eq_right (hw.coldEnd_eq_zero_or.resolve_left hnone)

omit hg in
theorem sparseBegin_pos : 0 < g.sparseBegin := by
  have hmin : 4 ≤ g.baseEnd := hw.minBaseEnd_le
  have hle : g.baseEnd ≤ g.sparseBegin := hw.coldBegin_le_sparseBegin
  omega

/-- A sparse range is recorded as a sparse depth that is not zero. -/
theorem parameters_sparseDepth_eq_zero_iff :
    g.parameters.sparseDepth = 0 ↔ g.hasSparse = false := by
  unfold parameters
  by_cases hsparse : g.hasSparse = true
  · rw [if_pos hsparse, ofNat_eq_zero_iff hg.sparseBegin_lt, hsparse]
    exact iff_of_false (Nat.ne_of_gt (sparseBegin_pos hw)) Bool.false_ne_true.symm
  · rw [if_neg hsparse]
    exact iff_of_true rfl ((Bool.not_eq_true _).mp hsparse)

/-- A hint beside a sparse depth is not taken again, and without a sparse range there is none. -/
theorem parameters_isHinted : g.parameters.isHinted = false := by
  have hdepth := parameters_sparseDepth_eq_zero_iff hw hg
  unfold Config.isHinted
  by_cases hsparse : g.hasSparse = false
  · have hhint : g.parameters.numPointsHint = 0 :=
      (ofNat_eq_zero_iff hg.pointHint_lt).2 (hg.pointHint_eq hsparse)
    rw [hhint]
    rfl
  · rw [beq_eq_false_iff_ne.2 (mt hdepth.1 hsparse), Bool.and_false]

theorem parameters_sparseBegin? (shape : Shape) :
    g.parameters.sparseBegin? shape = .ok g.sparseBegin := by
  unfold Config.sparseBegin?
  rw [parameters_isHinted hw hg, if_neg Bool.false_ne_true, parameters_baseEnd hw hg]
  unfold parameters
  by_cases hsparse : g.hasSparse = true
  · rw [if_pos hsparse, UInt64.toNat_ofNat_of_lt' hg.sparseBegin_lt]
    exact congrArg _ (Nat.max_eq_left hw.coldBegin_le_sparseBegin)
  · rw [if_neg hsparse, hg.sparseBegin_eq (Bool.not_eq_true _ ▸ hsparse)]
    exact congrArg _ (Nat.zero_max _)

theorem parameters_hasSparse :
    (g.parameters.sparseDepth != 0 || g.parameters.isHinted || g.parameters.dynamicChunks) =
      g.hasSparse := by
  have hdepth := parameters_sparseDepth_eq_zero_iff hw hg
  rw [parameters_isHinted hw hg, Bool.or_false]
  by_cases hsparse : g.hasSparse = false
  · rw [hdepth.2 hsparse, hsparse]
    exact hg.dynamic_eq hsparse
  · rw [bne_iff_ne.2 (mt hdepth.1 hsparse), (Bool.not_eq_false _).mp hsparse]
    rfl

theorem parameters_geometry : g.parameters.geometry g.shape g.sparseBegin = g := by
  unfold Config.geometry
  rw [parameters_baseEnd hw hg, parameters_coldEnd hw hg, parameters_hasSparse hw hg]
  unfold parameters Config.isTubular
  rw [UInt64.toNat_ofNat_of_lt' hg.nullEnd_lt, UInt64.toNat_ofNat_of_lt' hg.capacity_lt,
    UInt64.toNat_ofNat_of_lt' hg.pointHint_lt, UInt64.toNat_ofNat_of_lt' hg.startDepth_lt]

end

end Geometry

namespace Config

open ChunkedTree.Geometry

variable {c : Config} {g : Geometry}

/-! ## Building again -/

theorem rebuildable_of_build (hb : c.build = .ok g) : g.Rebuildable := by
  have hw := wellFormed_of_build hb
  have hmax : maxWord + 1 = UInt64.size := rfl
  obtain ⟨shape, sparse, _, _, hsparse, rfl, _⟩ := build_eq_ok_iff.1 hb
  have hcold := hw.reaches_coldEnd.le_maxWord
  have hdeep := hw.reaches_sparseBegin.le_maxWord
  -- without a sparse range the sparse depth is neither given nor hinted
  have hnone (h : (c.geometry shape sparse).hasSparse = false) :
      c.sparseDepth = 0 ∧ c.isHinted = false ∧ c.dynamicChunks = false := by
    simpa [geometry, and_assoc] using h
  constructor
  case nullEnd_lt => exact c.nullDepth.toNat_lt
  case baseEnd_lt => exact Nat.max_lt.2 ⟨c.nullDepth.toNat_lt, c.baseDepth.toNat_lt⟩
  case coldEnd_lt => omega
  case sparseBegin_lt => omega
  case capacity_lt => exact c.pointsPerChunk.toNat_lt
  case pointHint_lt => exact c.numPointsHint.toNat_lt
  case startDepth_lt => exact c.startDepth.toNat_lt
  case sparseBegin_eq =>
    intro h
    obtain ⟨hdepth, hhint, _⟩ := hnone h
    unfold sparseBegin? at hsparse
    rw [hhint, if_neg Bool.false_ne_true, hdepth] at hsparse
    exact (Except.ok.inj hsparse).symm.trans (Nat.zero_max _)
  case pointHint_eq =>
    intro h
    obtain ⟨hdepth, hhint, _⟩ := hnone h
    unfold isHinted at hhint
    rw [hdepth] at hhint
    have hword : c.numPointsHint = 0 := by simpa using hhint
    change c.numPointsHint.toNat = 0
    rw [hword]
    rfl
  case dynamic_eq => exact fun h => (hnone h).2.2

/-- The parameters of a built geometry build it again. -/
theorem parameters_build (hb : c.build = .ok g) : g.parameters.build = .ok g := by
  have hw := wellFormed_of_build hb
  have hg := rebuildable_of_build hb
  obtain ⟨_, _, _, _, _, _, hcap, hnom, hword⟩ := build_eq_ok_iff.1 hb
  refine build_eq_ok_iff.2 ⟨g.shape, g.sparseBegin, parameters_shape? g, ?_,
    parameters_sparseBegin? hw hg _, parameters_geometry hw hg, hcap, hnom, hword⟩
  rw [parameters_baseEnd hw hg]
  exact hw.minBaseEnd_le

end Config

end ChunkedTree
