/-
  What becomes of parameters.

  `Config.verdict` says it without the arithmetic of words: which faults there are, the first of
  which is reported, and what is built if there are none. A chunk size is right if some depth has
  that many nodes, and the hinted depth is the rounded logarithm of the hint with 15 percent of
  headroom. Nothing but the parameters is named there, and none of the depths that building makes of
  them. Building comes to the same, for all parameters.

  Each check of building is turned into the condition under which it refuses (`…_eq_ite`). A check
  that is only made of some trees, of those with chunks or with growing ones, gives a condition that
  is joined with theirs (`ite_bind_of_eq_ite`).
-/
import ChunkedTree.Proofs.WellFormed
import Mathlib.Algebra.Order.Floor.Div

namespace ChunkedTree

/-! ## Checks as conditions -/

theorem Failure.unless_eq_ite {ε : Type} {p : Bool} {bad : Prop} [Decidable bad] {reason : ε}
    (h : p = true ↔ ¬ bad) :
    Failure.unless p reason = if bad then .error (.refused reason) else .ok () := by
  unfold Failure.unless
  rw [if_congr h rfl rfl, ite_not]

/-- A check that refuses before anything else decides the whole. -/
theorem bind_of_eq_ite {ε α β : Type} {bad : Prop} [Decidable bad] {e : ε} {check next : Except ε α}
    (h : check = if bad then .error e else next) (rest : α → Except ε β) :
    (check >>= rest) = if bad then .error e else next >>= rest := by
  rw [h]
  by_cases hbad : bad
  · rw [if_pos hbad, if_pos hbad]
    rfl
  · rw [if_neg hbad, if_neg hbad]

/-- A check that is only made if `p` holds. -/
theorem ite_bind_of_eq_ite {ε β : Type} {p bad : Prop} [Decidable p] [Decidable bad] {e : ε}
    {check next : Except ε Unit} (h : check = if bad then .error e else next)
    (rest : Except ε β) :
    (if p then check >>= fun _ => rest else rest) =
      if p ∧ bad then .error e else if p then next >>= fun _ => rest else rest := by
  rw [bind_of_eq_ite h]
  by_cases hp : p
  · rw [if_pos hp, if_pos hp]
    exact if_congr (and_iff_right hp).symm rfl rfl
  · rw [if_neg hp, if_neg hp, if_neg (fun h => hp h.1)]

namespace Config

/-! ## What parameters say -/

/-- Some depth has as many nodes as a chunk. -/
def FillsDepth (c : Config) (shape : Shape) : Prop :=
  ∃ depth, c.pointsPerChunk.toNat = shape.factor ^ depth

theorem fillsDepth_iff {c : Config} {shape : Shape} : c.FillsDepth shape ↔
    c.pointsPerChunk.toNat = shape.factor ^ Nat.log shape.factor c.pointsPerChunk.toNat := by
  unfold FillsDepth Shape.factor
  rw [← Logarithm.exists_eq_size_iff shape.dimensions_pos]
  simp only [Level.size_eq_pow]

instance (c : Config) (shape : Shape) : Decidable (c.FillsDepth shape) :=
  decidable_of_iff _ fillsDepth_iff.symm

/-- The least depth with at least as many nodes as the hint, no shallower than the chunked
    depths. -/
def holdingDepth (c : Config) (shape : Shape) : Nat :=
  max (max c.nullDepth.toNat c.baseDepth.toNat) (Nat.clog shape.factor c.numPointsHint.toNat)

/-- The sparse depth: 15 percent past the depth that holds the hint, or as given. -/
def sparseFrom (c : Config) (shape : Shape) : Nat :=
  if c.numPointsHint ≠ 0 ∧ c.sparseDepth = 0 then (115 * c.holdingDepth shape) ⌈/⌉ 100
  else max c.sparseDepth.toNat (max c.nullDepth.toNat c.baseDepth.toNat)

/-- What becomes of the parameters of a tree with the given shape. -/
def verdictOn (c : Config) (shape : Shape) : Except (Failure Rejection) Geometry :=
  let base := max c.nullDepth.toNat c.baseDepth.toNat
  let cold := if c.coldDepth = 0 then 0 else max base c.coldDepth.toNat
  let capacity := c.pointsPerChunk.toNat
  let nominal := Nat.log shape.factor capacity
  let sparse := c.sparseFrom shape
  if base < 4 then .error (.refused (.shallowBase base))
  else if (c.numPointsHint ≠ 0 ∧ c.sparseDepth = 0) ∧ maxWord < 115 * c.holdingDepth shape then
    .error (.fault .overflow)
  else if (base < cold ∨ c.dynamicChunks = true) ∧ capacity = 0 then
    .error (.refused .noChunkSize)
  else if (base < cold ∨ c.dynamicChunks = true) ∧ ¬ c.FillsDepth shape then
    .error (.refused (.badChunkSize capacity shape.factor))
  else if c.dynamicChunks = true ∧ sparse < nominal then
    .error (.refused (.shallowSparse sparse nominal))
  else if maxWord < shape.dimensions * max sparse cold then .error (.fault .overflow)
  else .ok (c.geometry shape sparse)

/-- What becomes of the parameters: a shape that is not given by its dimensions is given by its
    name, as an octree or else a quadtree. -/
def verdict (c : Config) : Except (Failure Rejection) Geometry :=
  let dimensions := c.dimensions.getD (if c.shapeName = some "octree" then 3 else 2)
  if dimensions = 2 then c.verdictOn .quadtree
  else if dimensions = 3 then c.verdictOn .octree
  else .error (.refused (.badDimensions dimensions.toNat))

/-! ## The checks of building -/

variable {c : Config} {shape : Shape}

theorem treeDimensions_eq : c.treeDimensions =
    c.dimensions.getD (if c.shapeName = some "octree" then 3 else 2) := by
  unfold treeDimensions
  cases c.dimensions <;> rfl

theorem shape?_eq_ite : c.shape? =
    if c.treeDimensions = 2 then .ok .quadtree
    else if c.treeDimensions = 3 then .ok .octree
    else .error (.refused (.badDimensions c.treeDimensions.toNat)) := by
  unfold shape? Shape.ofDimensions?
  by_cases h2 : c.treeDimensions = 2
  · rw [if_pos h2, h2]
    rfl
  · rw [if_neg h2]
    by_cases h3 : c.treeDimensions = 3
    · rw [if_pos h3, h3]
      rfl
    · rw [if_neg h3]
      have hn2 : c.treeDimensions.toNat ≠ 2 := fun h => h2 (UInt64.toNat_inj.1 h)
      have hn3 : c.treeDimensions.toNat ≠ 3 := fun h => h3 (UInt64.toNat_inj.1 h)
      split
      · next shape hshape =>
        have hdims := Shape.ofDimensions?_eq_some_iff.1 hshape
        cases shape
        · exact absurd hdims hn2
        · exact absurd hdims hn3
      · rfl

theorem isHinted_iff : c.isHinted = true ↔ c.numPointsHint ≠ 0 ∧ c.sparseDepth = 0 := by
  unfold isHinted
  rw [Bool.and_eq_true, bne_iff_ne, beq_iff_eq]

theorem sparseBegin?_eq_ite : c.sparseBegin? shape =
    if (c.numPointsHint ≠ 0 ∧ c.sparseDepth = 0) ∧ maxWord < 115 * c.holdingDepth shape then
      .error .overflow
    else .ok (c.sparseFrom shape) := by
  have hclog := Logarithm.ceil?_branching shape.dimensions_eq_two_or_three
    (Nat.le_pred_of_lt c.numPointsHint.toNat_lt)
  unfold sparseBegin? sparseFrom
  rw [if_congr isHinted_iff rfl rfl]
  by_cases hh : c.numPointsHint ≠ 0 ∧ c.sparseDepth = 0
  · rw [if_pos hh, if_pos hh]
    unfold hintedDepth? Checked.word holdingDepth baseEnd Shape.factor
    rw [hclog, ok_bind, Nat.max_comm, Nat.mul_comm]
    by_cases hword : 115 * max (max c.nullDepth.toNat c.baseDepth.toNat)
        (Nat.clog (Level.branching shape.dimensions) c.numPointsHint.toNat) ≤ maxWord
    · rw [if_pos hword, ok_bind, if_neg (fun h => Nat.not_lt_of_le hword h.2)]
      rfl
    · rw [if_neg hword, if_pos ⟨hh, Nat.lt_of_not_le hword⟩]
      rfl
  · rw [if_neg hh, if_neg hh, if_neg (fun h => hh h.1)]
    rfl

theorem checkCapacity_eq_ite : checkCapacity c.pointsPerChunk.toNat shape.factor =
    if c.pointsPerChunk.toNat = 0 then .error (.refused .noChunkSize)
    else if ¬ c.FillsDepth shape then
      .error (.refused (.badChunkSize c.pointsPerChunk.toNat shape.factor))
    else .ok () := by
  obtain ⟨exact, hexact, hiff⟩ := Logarithm.isPower?_branching shape.dimensions_pos
    (Nat.le_of_lt shape.dimensions_lt) (Nat.le_pred_of_lt c.pointsPerChunk.toNat_lt)
  have hfills : exact = true ↔ ¬ ¬ c.FillsDepth shape := by
    rw [not_not, fillsDepth_iff, hiff, Logarithm.exists_eq_size_iff shape.dimensions_pos]
    rfl
  unfold checkCapacity
  rw [bind_of_eq_ite (Failure.unless_eq_ite bne_iff_ne), ok_bind]
  change (if _ then _ else (Logarithm.isPower? _ (Level.branching _)).orFault >>= _) = _
  rw [hexact]
  exact if_congr Iff.rfl rfl (Failure.unless_eq_ite hfills)

theorem checkGrowth_eq_ite (sparse : Nat) :
    Failure.unless
        ((c.geometry shape sparse).nominalDepth ≤ (c.geometry shape sparse).sparseBegin)
        (Rejection.shallowSparse (c.geometry shape sparse).sparseBegin
          (c.geometry shape sparse).nominalDepth) =
      if sparse < Nat.log shape.factor c.pointsPerChunk.toNat then
        .error (.refused (.shallowSparse sparse (Nat.log shape.factor c.pointsPerChunk.toNat)))
      else .ok () := by
  have hnominal : (c.geometry shape sparse).nominalDepth =
      Nat.log shape.factor c.pointsPerChunk.toNat := Logarithm.floor_branching _ _
  rw [hnominal]
  exact Failure.unless_eq_ite (decide_eq_true_iff.trans Nat.not_lt.symm)

theorem checkReach_eq_ite {sparse : Nat} (h : c.sparseBegin? shape = .ok sparse) :
    ((c.geometry shape sparse).checkBoundaries.orFault : Except (Failure Rejection) Unit) =
      if maxWord < shape.dimensions * max sparse c.coldEnd then .error (.fault .overflow)
      else .ok () := by
  have hreach : (c.geometry shape sparse).Reaches (max sparse c.coldEnd) ↔
      ¬ maxWord < shape.dimensions * max sparse c.coldEnd := by
    rw [Nat.not_lt, Nat.mul_comm]
    exact Iff.rfl
  rw [checkBoundaries_geometry h, if_congr hreach rfl rfl, ite_not]
  split
  · rfl
  · rfl

/-! ## Building as a whole -/

theorem build_of_shape (h : c.shape? = .ok shape) : c.build = c.verdictOn shape := by
  have hbase : Failure.unless (minBaseEnd ≤ c.baseEnd) (Rejection.shallowBase c.baseEnd) =
      if c.baseEnd < 4 then .error (.refused (.shallowBase c.baseEnd)) else .ok () :=
    Failure.unless_eq_ite (decide_eq_true_iff.trans Nat.not_lt.symm)
  unfold build verdictOn
  rw [h, ok_bind, bind_of_eq_ite hbase, ok_bind]
  refine if_congr Iff.rfl rfl ?_
  by_cases hover : (c.numPointsHint ≠ 0 ∧ c.sparseDepth = 0) ∧ maxWord < 115 * c.holdingDepth shape
  · rw [sparseBegin?_eq_ite, if_pos hover, if_pos hover]
    rfl
  · have hsparse : c.sparseBegin? shape = .ok (c.sparseFrom shape) :=
      sparseBegin?_eq_ite.trans (if_neg hover)
    rw [Checked.orFault_eq_ok_iff.2 hsparse, ok_bind, if_neg hover]
    generalize c.sparseFrom shape = sparse at hsparse ⊢
    have hchunks : ((c.geometry shape sparse).hasCold || (c.geometry shape sparse).dynamic) = true ↔
        c.baseEnd < c.coldEnd ∨ c.dynamicChunks = true := by
      rw [Bool.or_eq_true]
      exact or_congr decide_eq_true_iff Iff.rfl
    have hcapacity : checkCapacity (c.geometry shape sparse).capacity
        (c.geometry shape sparse).factor = _ := checkCapacity_eq_ite
    -- what comes after a check that is skipped is what comes after it when it passes
    dsimp only
    rw [if_congr hchunks rfl rfl, ite_bind_of_eq_ite hcapacity, ite_bind_of_eq_ite rfl,
      ite_bind_of_eq_ite (checkGrowth_eq_ite sparse), ok_bind, ok_bind, ite_self, ite_self,
      bind_of_eq_ite (checkReach_eq_ite hsparse)]
    rfl

/-- **What building does with any parameters.** Faults are reported in a fixed order, and parameters
    without one are built. -/
theorem build_eq_verdict (c : Config) : c.build = c.verdict := by
  unfold verdict
  rw [← treeDimensions_eq]
  by_cases h2 : c.treeDimensions = 2
  · rw [if_pos h2]
    exact build_of_shape (shape?_eq_ite.trans (if_pos h2))
  · rw [if_neg h2]
    by_cases h3 : c.treeDimensions = 3
    · rw [if_pos h3]
      exact build_of_shape (shape?_eq_ite.trans ((if_neg h2).trans (if_pos h3)))
    · rw [if_neg h3]
      unfold build
      rw [shape?_eq_ite, if_neg h2, if_neg h3]
      rfl

-- the headroom of the hinted depth is no word, and that is told before the missing chunk size
example : Config.build { Config.quadtree 9223372036854775808 0 0 with
      numPointsHint := 1, dynamicChunks := true } = .error (.fault .overflow) := by
  decide

end Config

end ChunkedTree
