/-
  What building guarantees of a geometry.

  `build_eq_ok_iff` says which parameters are built and what they become; `wellFormed_of_build`
  turns that into the facts about the geometry that all lookups rest on. Above all the capacity is
  the node count of the nominal depth, and the node counts of the sparse depth and of the depth
  where the chunked range ends have exponents that are words.
-/
import ChunkedTree.Geometry.Build
import ChunkedTree.Proofs.Logarithm

namespace ChunkedTree

theorem Shape.two_le_dimensions (s : Shape) : 2 ≤ s.dimensions := by
  cases s <;> decide

theorem Shape.dimensions_pos (s : Shape) : 0 < s.dimensions :=
  Nat.lt_of_lt_of_le Nat.two_pos s.two_le_dimensions

theorem Shape.dimensions_eq_two_or_three (s : Shape) : s.dimensions = 2 ∨ s.dimensions = 3 := by
  cases s <;> decide

theorem Shape.dimensions_lt (s : Shape) : s.dimensions < 64 := by
  cases s <;> decide

namespace Geometry

variable {g : Geometry}

theorem two_le_dimensions (g : Geometry) : 2 ≤ g.dimensions := g.shape.two_le_dimensions

theorem dimensions_pos (g : Geometry) : 0 < g.dimensions := g.shape.dimensions_pos

theorem dimensions_lt (g : Geometry) : g.dimensions < 64 := g.shape.dimensions_lt

/-! ## Depths within reach -/

/-- The exponent of the node count at `depth` is a word, so the depth's first node can be told. -/
def Reaches (g : Geometry) (depth : Nat) : Prop := depth * g.dimensions ≤ maxWord

instance (g : Geometry) (depth : Nat) : Decidable (g.Reaches depth) :=
  inferInstanceAs (Decidable (_ ≤ _))

theorem Reaches.of_le {d e : Nat} (h : g.Reaches e) (hle : d ≤ e) : g.Reaches d :=
  Nat.le_trans (Nat.mul_le_mul_right _ hle) h

theorem Reaches.le_maxWord {d : Nat} (h : g.Reaches d) : d ≤ maxWord :=
  Nat.le_trans (Nat.le_mul_of_pos_right d g.dimensions_pos) h

/-- A depth that is cut down to the largest word is in reach only if nothing was cut. -/
theorem reaches_min_maxWord_iff {d : Nat} : g.Reaches (min d maxWord) ↔ g.Reaches d := by
  constructor
  · intro h
    rcases Nat.le_total d maxWord with hle | hle
    · rwa [Nat.min_eq_left hle] at h
    · rw [Nat.min_eq_right hle] at h
      have htwice : maxWord * 2 ≤ maxWord * g.dimensions :=
        Nat.mul_le_mul_left _ g.two_le_dimensions
      have hpos : 0 < maxWord := by decide
      unfold Reaches at h
      omega
  · intro h
    exact h.of_le (Nat.min_le_left _ _)

theorem start?_eq_ok_iff {d m : Nat} :
    Level.start? g.dimensions d = .ok m ↔ g.Reaches d ∧ g.levelStart d = m :=
  Level.start?_eq_ok_iff g.dimensions_pos g.dimensions_lt

theorem start?_of_reaches {d : Nat} (hr : g.Reaches d) :
    Level.start? g.dimensions d = .ok (g.levelStart d) :=
  start?_eq_ok_iff.2 ⟨hr, rfl⟩

/-! ## Boundaries within reach -/

/-- The nominal depth follows from the capacity, whose bits a word can count. -/
theorem reaches_nominalDepth (h : g.capacity ≤ maxWord) : g.Reaches g.nominalDepth := by
  have hlog : Nat.log2 g.factor = g.dimensions := by
    change Nat.log2 (Level.branching g.dimensions) = g.dimensions
    rw [Level.branching_eq_pow, Nat.log2_two_pow]
  unfold Reaches nominalDepth Logarithm.floor
  rw [hlog]
  exact Nat.le_trans (Nat.div_mul_le_self _ _) (Nat.le_trans (Nat.log2_le_self _) h)

section

variable (hnull : g.nullEnd ≤ g.baseEnd) (hbase : g.baseEnd ≤ g.sparseBegin)
  (hword : g.capacity ≤ maxWord)
include hnull hbase hword

/-- The deepest boundary is the sparse depth or the end of the chunked range. -/
theorem forall_boundaryDepths_reaches_iff :
    (∀ d ∈ g.boundaryDepths, g.Reaches d) ↔ g.Reaches (max g.sparseBegin g.coldEnd) := by
  unfold boundaryDepths
  constructor
  · intro h
    rcases Nat.le_total g.sparseBegin g.coldEnd with hle | hle
    · rw [Nat.max_eq_right hle]
      exact h _ (by simp)
    · rw [Nat.max_eq_left hle]
      exact h _ (by simp)
  · intro h d hd
    have hdepth : d = g.nominalDepth ∨ d ≤ max g.sparseBegin g.coldEnd := by
      simp only [List.mem_cons, List.not_mem_nil, or_false] at hd
      omega
    rcases hdepth with rfl | hle
    · exact reaches_nominalDepth hword
    · exact h.of_le hle

theorem boundaryIndexes?_eq_ite : g.boundaryIndexes? =
    if g.Reaches (max g.sparseBegin g.coldEnd) then .ok (g.boundaryDepths.map g.levelStart)
    else .error .overflow := by
  have hstart := mapM_eq_ite (Level.start?_eq_ite g.dimensions_pos g.dimensions_lt) g.boundaryDepths
  unfold boundaryIndexes?
  rw [hstart]
  exact if_congr (forall_boundaryDepths_reaches_iff hnull hbase hword) rfl rfl

theorem checkBoundaries_eq_ite : g.checkBoundaries =
    if g.Reaches (max g.sparseBegin g.coldEnd) then .ok () else .error .overflow := by
  have hindexes := boundaryIndexes?_eq_ite hnull hbase hword
  unfold checkBoundaries chunksPerSparseDepth?
  rw [hindexes, Level.size?_eq_ite]
  by_cases hr : g.Reaches (max g.sparseBegin g.coldEnd)
  · -- the chunks past the sparse depth are counted by a shallower depth
    have hr' : (g.sparseBegin - g.nominalDepth) * g.dimensions ≤ maxWord :=
      hr.of_le (Nat.le_trans (Nat.sub_le _ _) (Nat.le_max_left _ _))
    rw [if_pos hr, if_pos hr, if_pos hr']
    cases g.dynamic
    · rfl
    · rfl
  · rw [if_neg hr, if_neg hr]
    split
    · split
      · rfl
      · rfl
    · rfl

end

/-! ## Well-formed geometries -/

/-- What all lookups in a built geometry rest on. -/
structure WellFormed (g : Geometry) : Prop where
  minBaseEnd_le : Config.minBaseEnd ≤ g.baseEnd
  nullEnd_le : g.nullEnd ≤ g.baseEnd
  coldBegin_le_sparseBegin : g.coldBegin ≤ g.sparseBegin
  /-- There is no chunked range, or it ends no earlier than it begins. -/
  coldEnd_eq_zero_or : g.coldEnd = 0 ∨ g.coldBegin ≤ g.coldEnd
  capacity_eq : g.hasCold = true ∨ g.dynamic = true →
    g.capacity = Level.size g.dimensions g.nominalDepth
  nominalDepth_le : g.dynamic = true → g.nominalDepth ≤ g.sparseBegin
  reaches_sparseBegin : g.Reaches g.sparseBegin
  reaches_coldEnd : g.Reaches g.coldEnd

end Geometry

namespace Config

variable {c : Config} {g : Geometry}

/-! ## What is built -/

/-- The sparse depth, given or hinted, is no shallower than the chunked depths. -/
theorem baseEnd_le_of_sparseBegin? {shape : Shape} {sparse : Nat}
    (h : c.sparseBegin? shape = .ok sparse) : c.baseEnd ≤ sparse := by
  unfold sparseBegin? at h
  split at h
  · simp only [hintedDepth?, bind_eq_ok_iff, Checked.word_eq_ok_iff, pure_eq_ok_iff] at h
    obtain ⟨least, _, percent, ⟨_, rfl⟩, rfl⟩ := h
    omega
  · obtain rfl := Except.ok.inj h
    exact Nat.le_max_right _ _

/-- The last check of building: the sparse depth and the end of the chunked depths are within
    reach, and no boundary lies deeper. -/
theorem checkBoundaries_geometry {shape : Shape} {sparse : Nat}
    (h : c.sparseBegin? shape = .ok sparse) : (c.geometry shape sparse).checkBoundaries =
      if (c.geometry shape sparse).Reaches (max sparse c.coldEnd) then .ok ()
      else .error .overflow :=
  Geometry.checkBoundaries_eq_ite (Nat.le_max_left _ _) (baseEnd_le_of_sparseBegin? h)
    (Nat.le_pred_of_lt c.pointsPerChunk.toNat_lt)

theorem build_eq_ok_iff :
    c.build = .ok g ↔ ∃ shape sparse, c.shape? = .ok shape ∧ minBaseEnd ≤ c.baseEnd ∧
      c.sparseBegin? shape = .ok sparse ∧ c.geometry shape sparse = g ∧
      (g.hasCold = true ∨ g.dynamic = true → checkCapacity g.capacity g.factor = .ok ()) ∧
      (g.dynamic = true → g.nominalDepth ≤ g.sparseBegin) ∧
      max g.sparseBegin g.coldEnd * g.dimensions ≤ maxWord := by
  have hlast {shape : Shape} {sparse : Nat} (hsparse : c.sparseBegin? shape = .ok sparse) :
      (c.geometry shape sparse).checkBoundaries = .ok () ↔
        (c.geometry shape sparse).Reaches (max sparse c.coldEnd) := by
    rw [checkBoundaries_geometry hsparse]
    split
    · next hr => exact iff_of_true rfl hr
    · next hr => exact iff_of_false (fun h => by cases h) hr
  unfold build
  simp only [bind_eq_ok_iff, Failure.unless_eq_ok_iff, Checked.orFault_eq_ok_iff,
    ite_bind_eq_ok_iff, pure_eq_ok_iff, decide_eq_true_eq, Bool.or_eq_true]
  constructor
  · intro h
    obtain ⟨shape, hshape, _, hbase, sparse, hsparse, hcap, hnom, _, hreach, rfl⟩ := h
    exact ⟨shape, sparse, hshape, hbase, hsparse, rfl, hcap, hnom, (hlast hsparse).1 hreach⟩
  · intro h
    obtain ⟨shape, sparse, hshape, hbase, hsparse, rfl, hcap, hnom, hreach⟩ := h
    exact ⟨shape, hshape, (), hbase, sparse, hsparse, hcap, hnom, (),
      (hlast hsparse).2 hreach, rfl⟩

/-- A capacity that passes the check is the node count of the depth that is its logarithm. -/
theorem eq_size_of_checkCapacity {capacity n : Nat} (hn : 0 < n) (hn' : n ≤ 64)
    (hword : capacity ≤ maxWord)
    (h : checkCapacity capacity (Level.branching n) = .ok ()) :
    capacity = Level.size n (Logarithm.floor capacity (Level.branching n)) := by
  simp only [checkCapacity, bind_eq_ok_iff, Failure.unless_eq_ok_iff,
    Checked.orFault_eq_ok_iff] at h
  obtain ⟨_, _, exact, hexact, rfl⟩ := h
  obtain ⟨b, hb, hiff⟩ := Logarithm.isPower?_branching hn hn' hword
  obtain rfl := Except.ok.inj (hexact.symm.trans hb)
  obtain ⟨k, rfl⟩ := hiff.1 rfl
  rw [Logarithm.floor_size hn]

theorem wellFormed_of_build (h : c.build = .ok g) : g.WellFormed := by
  obtain ⟨shape, sparse, _, hbase, hsparse, rfl, hcap, hnom, hword⟩ := build_eq_ok_iff.1 h
  have hreach : (c.geometry shape sparse).Reaches
      (max (c.geometry shape sparse).sparseBegin (c.geometry shape sparse).coldEnd) := hword
  refine ⟨hbase, Nat.le_max_left _ _, baseEnd_le_of_sparseBegin? hsparse, ?_, ?_, hnom,
    hreach.of_le (Nat.le_max_left _ _), hreach.of_le (Nat.le_max_right _ _)⟩
  · change c.coldEnd = 0 ∨ c.baseEnd ≤ c.coldEnd
    unfold coldEnd
    split
    · exact Or.inl rfl
    · exact Or.inr (Nat.le_max_left _ _)
  · intro hchunks
    have hcapacity : c.pointsPerChunk.toNat ≤ maxWord := Nat.le_pred_of_lt c.pointsPerChunk.toNat_lt
    exact eq_size_of_checkCapacity (Geometry.dimensions_pos _)
      (Nat.le_of_lt (Geometry.dimensions_lt _)) hcapacity (hcap hchunks)

end Config

end ChunkedTree
