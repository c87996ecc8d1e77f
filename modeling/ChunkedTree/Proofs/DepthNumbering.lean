/-
  What is asked of a depth, and that it is answered.

  The questions about a chunked depth come down to placing the first node of a level or the last
  one. Each has its law: the number of the first node (`firstNumber?_eq_ok_iff`), the count of
  chunks (`chunkCount?_of_reaches`), the range of numbers (`numberRange?_of_reaches`), whether the
  depth is aligned (`isAligned?_of_reaches`), its row in the layout (`layoutRow?_of_reaches`), the
  rows of a range of depths (`layout?_of_reaches`) and its walk (`walk_eq_ok_iff`). All they need is
  that the next level start is within reach, and a built tree reaches the end of its chunked range.
-/
import ChunkedTree.Layout
import ChunkedTree.Walk
import ChunkedTree.Proofs.Seam

namespace ChunkedTree.Geometry

variable {g : Geometry} {d : Nat}

/-! ## Exact answers -/

/-- Number of the chunk that holds the first node at `depth`. -/
def firstNumber (g : Geometry) (depth : Nat) : Nat := (g.place (g.levelStart depth)).number

/-- Index of the last node at `depth`. -/
def levelLast (g : Geometry) (depth : Nat) : Nat := g.levelStart (depth + 1) - 1

/-- Number of the chunk that holds the last node at `depth`. -/
def lastNumber (g : Geometry) (depth : Nat) : Nat := (g.place (g.levelLast depth)).number

/-- Number of chunks that the nodes at `depth` fill. -/
def chunkCount (g : Geometry) (depth : Nat) : Nat :=
  Level.size g.dimensions depth / (g.runAt depth).capacity

/-- The depth whose nodes a count of chunks at `depth` divides by the capacity. -/
def countedDepth (g : Geometry) (depth : Nat) : Nat :=
  if g.Grows depth then g.sparseBegin else depth

/-- The first node at `depth` is the first one in its chunk. -/
def StartsChunk (g : Geometry) (depth : Nat) : Prop := (g.place (g.levelStart depth)).offset = 0

instance (g : Geometry) (depth : Nat) : Decidable (g.StartsChunk depth) :=
  inferInstanceAs (Decidable (_ = _))

/-- The first node at `depth` and the first one below it both start a chunk. -/
def Aligned (g : Geometry) (depth : Nat) : Prop := g.StartsChunk depth ∧ g.StartsChunk (depth + 1)

instance (g : Geometry) (depth : Nat) : Decidable (g.Aligned depth) :=
  inferInstanceAs (Decidable (_ ∧ _))

/-- The row of a chunked depth in the layout. -/
def layoutRow (g : Geometry) (depth : Nat) : LayoutRow where
  depth := depth
  region := g.depthRegion depth
  firstNumber := g.firstNumber depth
  count := g.lastNumber depth + 1 - g.firstNumber depth
  capacity := (g.runAt depth).capacity
  shared := !decide (g.Aligned depth)

/-! ## First and last nodes -/

theorem levelStart_le_levelLast (g : Geometry) (d : Nat) : g.levelStart d ≤ g.levelLast d := by
  have hpos := Level.size_pos g.dimensions d
  unfold levelLast
  rw [levelStart_succ]
  omega

theorem levelLast_lt (g : Geometry) (d : Nat) : g.levelLast d < g.levelStart (d + 1) := by
  have hpos := Level.size_pos g.dimensions d
  unfold levelLast
  rw [levelStart_succ]
  omega

theorem depthOf_levelLast (g : Geometry) (d : Nat) : g.depthOf (g.levelLast d) = d :=
  depthOf_eq_iff.2 ⟨g.levelStart_le_levelLast d, g.levelLast_lt d⟩

/-- Within a depth numbers grow with the nodes. -/
theorem number_le_number {i j : Nat} (hij : i ≤ j) (hdepth : g.depthOf i = g.depthOf j) :
    (g.place i).number ≤ (g.place j).number := by
  unfold place
  rw [hdepth]
  exact Nat.add_le_add_left (Nat.div_le_div_right (Nat.sub_le_sub_right hij _)) _

theorem firstNumber_le_lastNumber (g : Geometry) (d : Nat) : g.firstNumber d ≤ g.lastNumber d := by
  apply number_le_number (g.levelStart_le_levelLast d)
  rw [depthOf_levelStart, depthOf_levelLast]

theorem coldIndexBegin_le_levelLast (hd : g.coldBegin ≤ d) : g.coldIndexBegin ≤ g.levelLast d :=
  Nat.le_trans (levelStart_le_levelStart hd) (g.levelStart_le_levelLast d)

/-! ## Numbers in chunks of base size -/

theorem firstNumber_of_not_grows (hg : ¬ g.Grows d) :
    g.firstNumber d = (g.levelStart d - g.coldIndexBegin) / g.capacity := by
  unfold firstNumber place
  rw [depthOf_levelStart, runAt_of_not_grows hg]
  exact Nat.zero_add _

theorem lastNumber_of_not_grows (hg : ¬ g.Grows d) :
    g.lastNumber d = (g.levelLast d - g.coldIndexBegin) / g.capacity := by
  unfold lastNumber place
  rw [depthOf_levelLast, runAt_of_not_grows hg]
  exact Nat.zero_add _

theorem chunkCount_of_not_grows (hg : ¬ g.Grows d) :
    g.chunkCount d = Level.size g.dimensions d / g.capacity := by
  unfold chunkCount
  rw [runAt_of_not_grows hg]
  rfl

/-! ## The next level start -/

theorem nextLevelStart?_eq_ok_iff {m : Nat} :
    g.nextLevelStart? d = .ok m ↔ g.Reaches (d + 1) ∧ g.levelStart (d + 1) = m := by
  unfold nextLevelStart?
  simp only [bind_eq_ok_iff, Checked.word_eq_ok_iff, start?_eq_ok_iff]
  constructor
  · intro h
    obtain ⟨_, ⟨_, rfl⟩, hstart⟩ := h
    exact hstart
  · intro h
    exact ⟨_, ⟨h.1.le_maxWord, rfl⟩, h⟩

theorem nextLevelStart?_of_reaches (hr : g.Reaches (d + 1)) :
    g.nextLevelStart? d = .ok (g.levelStart (d + 1)) :=
  nextLevelStart?_eq_ok_iff.2 ⟨hr, rfl⟩

/-! ## The answers of one depth -/

/-- A count of chunks looks at the level's own nodes, or past the sparse depth of a dynamic tree at
    those of the sparse depth, whether or not there are chunks. A capacity of zero needs no case of
    its own: the quotient by it is zero too. -/
theorem chunkCount?_eq_ok (hw : g.WellFormed) (hr : g.Reaches (d + 1)) :
    g.chunkCount? d = .ok (Level.size g.dimensions (g.countedDepth d) / g.capacity) := by
  have hbranch : (!g.dynamic || decide (d ≤ g.sparseBegin)) = true ↔ ¬ g.Grows d := by
    unfold Grows
    rw [Bool.or_eq_true, decide_eq_true_eq]
    cases g.dynamic <;> simp
  unfold chunkCount? countedDepth
  rcases Nat.eq_zero_or_pos g.capacity with hzero | hcap
  · rw [if_pos hzero, hzero, Nat.div_zero]
    rfl
  · rw [if_neg (Nat.ne_of_gt hcap)]
    by_cases hg : g.Grows d
    · rw [if_neg (fun h => hbranch.1 h hg), if_pos hg,
        Level.size?_eq_ok_iff.2 ⟨hw.reaches_sparseBegin, rfl⟩, ok_bind, Checked.div_of_pos hcap]
    · have hspan : g.levelStart (d + 1) - g.levelStart d = Level.size g.dimensions d := by
        rw [levelStart_succ, Nat.add_sub_cancel_left]
      rw [if_pos (hbranch.2 hg), if_neg hg, nextLevelStart?_of_reaches hr, ok_bind,
        start?_of_reaches (hr.of_le (Nat.le_succ d)), ok_bind,
        Checked.sub_of_le (levelStart_le_levelStart (Nat.le_succ d)), ok_bind,
        Checked.div_of_pos hcap, hspan]

section

variable (hw : g.WellFormed) (hc : g.hasCold = true)
include hw hc

/-- Where there are chunks, what is counted is the level's node count by the capacity there. -/
theorem chunkCount_eq_div :
    g.chunkCount d = Level.size g.dimensions (g.countedDepth d) / g.capacity := by
  have hcap := capacity_pos hw hc
  unfold chunkCount countedDepth
  by_cases hg : g.Grows d
  · have hpos : 0 < (g.sparseRun d).capacity := Nat.mul_pos hcap (Level.size_pos _ _)
    rw [if_pos hg, runAt_of_grows hg, ← sparseRun_capacity_mul hw hg.1 (Nat.le_of_lt hg.2),
      ← capacity_mul_chunksPerSparseDepth hw hg.1, Nat.mul_div_cancel_left _ hcap,
      Nat.mul_div_cancel_left _ hpos]
  · rw [if_neg hg, runAt_of_not_grows hg]
    rfl

theorem chunkCount?_of_reaches (hr : g.Reaches (d + 1)) :
    g.chunkCount? d = .ok (g.chunkCount d) := by
  rw [chunkCount?_eq_ok hw hr, chunkCount_eq_div hw hc]

variable (hd : g.coldBegin ≤ d)
include hd

theorem locate_of_depthOf_eq {i : Nat} (hr : g.Reaches d) (hi : g.depthOf i = d) :
    g.locate i = .ok (g.place i) := by
  subst hi
  exact locate_of_reaches hw hc (levelStart_le_iff.2 hd) hr

theorem locate_levelStart (hr : g.Reaches d) :
    g.locate (g.levelStart d) = .ok (g.place (g.levelStart d)) :=
  locate_of_depthOf_eq hw hc hd hr (g.depthOf_levelStart d)

theorem locate_levelLast (hr : g.Reaches d) :
    g.locate (g.levelLast d) = .ok (g.place (g.levelLast d)) :=
  locate_of_depthOf_eq hw hc hd hr (g.depthOf_levelLast d)

theorem firstNumber?_eq_ok_iff {n : Nat} :
    g.firstNumber? d = .ok n ↔ g.Reaches d ∧ g.firstNumber d = n := by
  unfold firstNumber?
  simp only [bind_eq_ok_iff, pure_eq_ok_iff, start?_eq_ok_iff, locate_eq_ok_iff hw hc]
  constructor
  · intro h
    obtain ⟨_, ⟨hr, rfl⟩, _, ⟨_, _, rfl⟩, hn⟩ := h
    exact ⟨hr, hn⟩
  · intro h
    obtain ⟨hr, hn⟩ := h
    refine ⟨_, ⟨hr, rfl⟩, _, ⟨levelStart_le_levelStart hd, ?_, rfl⟩, hn⟩
    rwa [depthOf_levelStart]

theorem numberRange?_of_reaches (hr : g.Reaches (d + 1)) :
    g.numberRange? d = .ok ⟨g.firstNumber d, g.lastNumber d + 1⟩ := by
  have hr' := hr.of_le (Nat.le_succ d)
  have hlast : Checked.sub (g.levelStart (d + 1)) 1 = .ok (g.levelLast d) :=
    Checked.sub_of_le (Nat.le_trans (Nat.le_add_left 1 _) (g.levelLast_lt d))
  unfold numberRange?
  rw [start?_of_reaches hr', ok_bind, nextLevelStart?_of_reaches hr, ok_bind, hlast, ok_bind,
    locate_levelStart hw hc hd hr', ok_bind, locate_levelLast hw hc hd hr']
  rfl

theorem isAligned?_of_reaches (hr : g.Reaches (d + 1)) :
    g.isAligned? d = .ok (decide (g.Aligned d)) := by
  have hr' := hr.of_le (Nat.le_succ d)
  unfold isAligned?
  rw [start?_of_reaches hr', ok_bind, locate_levelStart hw hc hd hr', ok_bind,
    nextLevelStart?_of_reaches hr, ok_bind, locate_levelStart hw hc (Nat.le_succ_of_le hd) hr,
    ok_bind]
  unfold Aligned StartsChunk Placement.isChunkStart
  by_cases hfirst : (g.place (g.levelStart d)).offset = 0
  · rw [if_pos (beq_iff_eq.2 hfirst)]
    simp only [hfirst, true_and]
    rfl
  · rw [if_neg (fun h => hfirst (beq_iff_eq.1 h))]
    simp only [hfirst, false_and]
    rfl

omit hw hc hd in
/-- That a depth is aligned is said only once the next level start is known. -/
theorem reaches_of_isAligned? (h : g.isAligned? d = .ok true) : g.Reaches (d + 1) := by
  unfold isAligned? at h
  simp only [bind_eq_ok_iff] at h
  obtain ⟨_, _, _, _, hrest⟩ := h
  split at hrest
  · simp only [bind_eq_ok_iff, nextLevelStart?_eq_ok_iff] at hrest
    obtain ⟨_, ⟨hr, _⟩, _⟩ := hrest
    exact hr
  · simp only [pure_eq_ok_iff, Bool.false_eq_true] at hrest

theorem isAligned?_eq_true_iff : g.isAligned? d = .ok true ↔ g.Reaches (d + 1) ∧ g.Aligned d := by
  constructor
  · intro h
    have hr := reaches_of_isAligned? h
    rw [isAligned?_of_reaches hw hc hd hr, Except.ok.injEq, decide_eq_true_eq] at h
    exact ⟨hr, h⟩
  · intro h
    rw [isAligned?_of_reaches hw hc hd h.1, decide_eq_true h.2]

/-! ## Rows of the layout -/

theorem layoutRow?_of_reaches (hr : g.Reaches (d + 1)) :
    g.layoutRow? d = .ok (g.layoutRow d) := by
  have hr' := hr.of_le (Nat.le_succ d)
  have hcount : Checked.sub (g.lastNumber d + 1) (g.firstNumber d) =
      .ok (g.lastNumber d + 1 - g.firstNumber d) :=
    Checked.sub_of_le (Nat.le_succ_of_le (g.firstNumber_le_lastNumber d))
  have hcapacity : (g.place (g.levelStart d)).capacity = (g.runAt d).capacity := by
    unfold place
    rw [depthOf_levelStart]
    rfl
  unfold layoutRow?
  rw [start?_of_reaches hr', ok_bind, locate_levelStart hw hc hd hr', ok_bind,
    numberRange?_of_reaches hw hc hd hr, ok_bind, isAligned?_of_reaches hw hc hd hr, ok_bind,
    hcount, ok_bind, hcapacity]
  rfl

/-- Every row needs its own depth and the next one, so all rows need the end of the last one. -/
theorem rows?_of_reaches {count : Nat} (hr : g.Reaches (d + count)) :
    g.rows? count d = .ok ((List.range' d count).map g.layoutRow) := by
  induction count generalizing d with
  | zero => rfl
  | succ count ih =>
    have hrow := layoutRow?_of_reaches hw hc hd (hr.of_le (by omega))
    have hrest := ih (Nat.le_succ_of_le hd) (hr.of_le (by omega))
    rw [rows?, hrow, ok_bind, hrest, ok_bind, List.range'_succ]
    rfl

omit hd in
theorem layout?_of_reaches {begin stop : Nat} (hr : g.Reaches stop) :
    g.layout? begin stop =
      .ok ((List.range' (max begin g.coldBegin) (stop - max begin g.coldBegin)).map
        g.layoutRow) := by
  unfold layout?
  rw [if_pos hc]
  rcases Nat.le_total (max begin g.coldBegin) stop with hle | hle
  · exact rows?_of_reaches hw hc (Nat.le_max_right _ _) (hr.of_le (by omega))
  · rw [Nat.sub_eq_zero_of_le hle]
    rfl

end

/-! ## Walks -/

theorem checkWalkable_eq_ok_iff {u : Unit} : g.checkWalkable d = .ok u ↔
    g.hasCold = true ∧ g.coldBegin ≤ d ∧ g.isAligned? d = .ok true := by
  unfold checkWalkable
  simp only [bind_eq_ok_iff, Failure.unless_eq_ok_iff, Checked.orFault_eq_ok_iff,
    decide_eq_true_eq]
  constructor
  · intro h
    obtain ⟨_, hc, _, hd, _, ha, rfl⟩ := h
    exact ⟨hc, hd, ha⟩
  · intro h
    exact ⟨(), h.1, (), h.2.1, true, h.2.2, rfl⟩

/-- With the next depth within reach, there are three reasons to refuse a walk, looked at in this
    order. -/
theorem checkWalkable_eq_ite (hw : g.WellFormed) (hr : g.Reaches (d + 1)) : g.checkWalkable d =
    if ¬ g.hasCold = true then .error (.refused .noColdRegion)
    else if d < g.coldBegin then .error (.refused (.aboveCold d g.coldBegin))
    else if g.Aligned d then .ok () else .error (.refused (.shared d)) := by
  unfold checkWalkable
  by_cases hc : g.hasCold = true
  · rw [if_neg (not_not_intro hc), Failure.unless_of hc, ok_bind]
    by_cases hd : d < g.coldBegin
    · rw [if_pos hd, decide_eq_false (Nat.not_le_of_lt hd)]
      rfl
    · have hd' := Nat.le_of_not_lt hd
      rw [if_neg hd, Failure.unless_of (decide_eq_true hd'), ok_bind,
        isAligned?_of_reaches hw hc hd' hr]
      by_cases ha : g.Aligned d
      · rw [if_pos ha, decide_eq_true ha]
        rfl
      · rw [if_neg ha, decide_eq_false ha]
        rfl
  · rw [if_pos hc, Bool.eq_false_iff.2 hc]
    rfl

theorem walk_of_checkWalkable_error {cause : Failure WalkError}
    (h : g.checkWalkable d = .error cause) : g.walk d = .error cause := by
  unfold walk
  rw [h]
  rfl

/-- A walk goes over the numbers that the depth fills, from that of its first node on. -/
theorem walk_eq_ok_iff (hw : g.WellFormed) {chunks : ChunkWalk} : g.walk d = .ok chunks ↔
    g.hasCold = true ∧ g.coldBegin ≤ d ∧ g.Reaches (d + 1) ∧ g.Aligned d ∧
      ⟨g, g.firstNumber d, g.firstNumber d + g.chunkCount d⟩ = chunks := by
  unfold walk
  simp only [bind_eq_ok_iff, Checked.orFault_eq_ok_iff, checkWalkable_eq_ok_iff, pure_eq_ok_iff]
  constructor
  · intro h
    obtain ⟨_, ⟨hc, hd, ha⟩, first, hfirst, count, hcount, rfl⟩ := h
    obtain ⟨hr, ha⟩ := (isAligned?_eq_true_iff hw hc hd).1 ha
    obtain ⟨_, rfl⟩ := (firstNumber?_eq_ok_iff hw hc hd).1 hfirst
    obtain rfl := Except.ok.inj ((chunkCount?_of_reaches hw hc hr).symm.trans hcount)
    exact ⟨hc, hd, hr, ha, rfl⟩
  · intro h
    obtain ⟨hc, hd, hr, ha, hchunks⟩ := h
    exact ⟨(), ⟨hc, hd, (isAligned?_eq_true_iff hw hc hd).2 ⟨hr, ha⟩⟩, _,
      (firstNumber?_eq_ok_iff hw hc hd).2 ⟨hr.of_le (Nat.le_succ d), rfl⟩, _,
      chunkCount?_of_reaches hw hc hr, hchunks⟩

/-! ## Indexes of a bit length within a word -/

/-- The exponent of a node's depth takes at most `dimensions` bits more than its index. -/
theorem depthOf_mul_dimensions_le (g : Geometry) (i : Nat) :
    g.depthOf i * g.dimensions ≤ i.log2 + g.dimensions := by
  have hlog : g.depthOf i * g.dimensions ≤ (i * (Level.branching g.dimensions - 1) + 1).log2 :=
    Nat.div_mul_le_self _ _
  have hscaled : (i * (Level.branching g.dimensions - 1) + 1).log2 < i.log2 + 1 + g.dimensions := by
    have hbits : i + 1 ≤ 2 ^ (i.log2 + 1) := Nat.lt_log2_self
    have hbranch := Level.two_le_branching g.dimensions_pos
    rw [Nat.log2_lt (Nat.succ_ne_zero _), Nat.pow_add, ← Level.branching_eq_pow g.dimensions]
    calc i * (Level.branching g.dimensions - 1) + 1
        ≤ i * Level.branching g.dimensions + 1 :=
          Nat.add_le_add_right (Nat.mul_le_mul_left _ (Nat.sub_le _ _)) _
      _ < (i + 1) * Level.branching g.dimensions := by
          rw [Nat.succ_mul]
          omega
      _ ≤ 2 ^ (i.log2 + 1) * Level.branching g.dimensions := Nat.mul_le_mul_right _ hbits
  omega

/-- Within a word, an index of any bit length but the largest has a depth within reach. -/
theorem reaches_depthOf_of_log2 {i : Nat} (h : i.log2 + 1 < maxWord) : g.Reaches (g.depthOf i) := by
  have hle := g.depthOf_mul_dimensions_le i
  unfold Reaches
  have hmax : maxWord = 18446744073709551615 := rfl
  have hdim : g.dimensions = 2 ∨ g.dimensions = 3 := g.shape.dimensions_eq_two_or_three
  -- with three dimensions the largest exponents that would be left are no multiples of three
  rcases hdim with hdim | hdim
  · rw [hdim] at hle ⊢
    omega
  · rw [hdim] at hle ⊢
    omega

end ChunkedTree.Geometry

namespace ChunkedTree

open ChunkedTree.Geometry

variable {c : Config} {g : Geometry}

/-- **No lookup in the chunked range faults.** For a built tree with chunks: the lookup of a chunked
    node is answered exactly if the exponent of its depth is a word, and so for every index whose
    bit length is below the largest word; every question about a depth in the chunked range is
    answered; and so is the layout of every range of depths that ends with it. -/
theorem chunked_lookups_complete (hb : c.build = .ok g) (hc : g.hasCold = true) :
    (∀ i, g.coldIndexBegin ≤ i →
      ((∃ p, g.locate i = .ok p) ↔ g.Reaches (g.depthOf i)) ∧
      (i.log2 + 1 < maxWord → ∃ p, g.locate i = .ok p)) ∧
    (∀ d, g.coldBegin ≤ d → d < g.coldEnd →
      (∃ n, g.chunkCount? d = .ok n) ∧ (∃ n, g.firstNumber? d = .ok n) ∧
      (∃ r, g.numberRange? d = .ok r) ∧ ∃ b, g.isAligned? d = .ok b) ∧
    (∀ begin stop, stop ≤ g.coldEnd → ∃ rows, g.layout? begin stop = .ok rows) := by
  have hw := Config.wellFormed_of_build hb
  refine ⟨?_, ?_, ?_⟩
  · intro i hi
    have hlocate : (∃ p, g.locate i = .ok p) ↔ g.Reaches (g.depthOf i) := by
      constructor
      · intro h
        obtain ⟨p, hp⟩ := h
        exact ((locate_eq_ok_iff hw hc).1 hp).2.1
      · intro hr
        exact ⟨_, locate_of_reaches hw hc hi hr⟩
    exact ⟨hlocate, fun hbits => hlocate.2 (reaches_depthOf_of_log2 hbits)⟩
  · intro d hd hend
    have hr : g.Reaches (d + 1) := hw.reaches_coldEnd.of_le hend
    exact ⟨⟨_, chunkCount?_of_reaches hw hc hr⟩,
      ⟨_, (firstNumber?_eq_ok_iff hw hc hd).2 ⟨hr.of_le (Nat.le_succ d), rfl⟩⟩,
      ⟨_, numberRange?_of_reaches hw hc hd hr⟩, ⟨_, isAligned?_of_reaches hw hc hd hr⟩⟩
  · intro begin stop hstop
    exact ⟨_, layout?_of_reaches hw hc (hw.reaches_coldEnd.of_le hstop)⟩

/-- At the last chunked depth too, whose questions look at the depth after it. -/
theorem tornQuadtree_lookups_complete :
    Config.tornQuadtree.build = .ok tornQuadtree ∧ tornQuadtree.hasCold = true ∧
      (∃ p, tornQuadtree.locate (2 ^ 100) = .ok p) ∧
      ((∃ n, tornQuadtree.chunkCount? 11 = .ok n) ∧ (∃ n, tornQuadtree.firstNumber? 11 = .ok n) ∧
        (∃ r, tornQuadtree.numberRange? 11 = .ok r) ∧ ∃ b, tornQuadtree.isAligned? 11 = .ok b) ∧
      ∃ rows, tornQuadtree.layout? 0 12 = .ok rows := by
  obtain ⟨hnodes, hdepths, hlayouts⟩ := chunked_lookups_complete tornQuadtree_build rfl
  exact ⟨tornQuadtree_build, rfl, (hnodes (2 ^ 100) (by decide)).2 (by decide),
    hdepths 11 (by decide) (by decide), hlayouts 0 12 (by decide)⟩

end ChunkedTree
