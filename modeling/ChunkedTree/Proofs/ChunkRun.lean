/-
  Chunks in runs, and where every node is placed.

  A run is a sequence of chunks of one size without a gap. The chunks of base size form one run
  from the first chunked node on; past the sparse depth of a dynamic tree every depth has a run of
  its own. Within a run, placing a node is one division (`ChunkRun.numberOf`), and telling a chunk
  from its number is its inverse (`ChunkRun.startOf`).

  `locate_eq_ok_iff`: a lookup succeeds exactly for the chunked nodes whose depth is in reach, and
  places the node by division in the run of its depth.
-/
import ChunkedTree.Placement
import ChunkedTree.Proofs.WellFormed

namespace ChunkedTree

/-- Chunks of one size that follow each other without a gap. -/
structure ChunkRun where
  /-- Index of the first node. -/
  start : Nat
  /-- Nodes in a chunk. -/
  capacity : Nat
  /-- Number of the first chunk. -/
  number : Nat

namespace ChunkRun

variable {r : ChunkRun}

/-- Number of the chunk that holds the node at `index`. -/
def numberOf (r : ChunkRun) (index : Nat) : Nat := r.number + (index - r.start) / r.capacity

/-- Index of the first node in the chunk with the given number. -/
def startOf (r : ChunkRun) (number : Nat) : Nat := r.start + (number - r.number) * r.capacity

/-- Placement of the node at `index` in this run. -/
def place (r : ChunkRun) (index depth levelStart : Nat) : Placement where
  index := index
  depth := depth
  levelStart := levelStart
  chunkStart := r.startOf (r.numberOf index)
  offset := (index - r.start) % r.capacity
  capacity := r.capacity
  number := r.numberOf index

theorem startOf_succ {n : Nat} (hn : r.number ≤ n) :
    r.startOf (n + 1) = r.startOf n + r.capacity := by
  unfold startOf
  rw [Nat.succ_sub hn, Nat.succ_mul, Nat.add_assoc]

theorem startOf_numberOf_add_offset {i : Nat} (hi : r.start ≤ i) :
    r.startOf (r.numberOf i) + (i - r.start) % r.capacity = i := by
  unfold startOf numberOf
  rw [Nat.add_sub_cancel_left, Nat.add_assoc, Nat.div_add_mod']
  omega

/-- A chunk of a run begins at or before a node exactly if its number is at most the node's. -/
theorem startOf_le_iff (hr : 0 < r.capacity) {n i : Nat} (hn : r.number ≤ n) (hi : r.start ≤ i) :
    r.startOf n ≤ i ↔ n ≤ r.numberOf i := by
  unfold startOf numberOf
  have := Nat.le_div_iff_mul_le hr (x := n - r.number) (y := i - r.start)
  omega

theorem numberOf_eq_iff (hr : 0 < r.capacity) {n i : Nat} (hn : r.number ≤ n) (hi : r.start ≤ i) :
    r.numberOf i = n ↔ r.startOf n ≤ i ∧ i < r.startOf n + r.capacity := by
  rw [← startOf_succ hn]
  have := startOf_le_iff hr hn hi
  have := startOf_le_iff hr (n := n + 1) (by omega) hi
  omega

theorem startOf_le_startOf {n m : Nat} (h : n ≤ m) : r.startOf n ≤ r.startOf m :=
  Nat.add_le_add_left (Nat.mul_le_mul_right _ (Nat.sub_le_sub_right h _)) _

theorem start_le_startOf (r : ChunkRun) (n : Nat) : r.start ≤ r.startOf n := Nat.le_add_right _ _

theorem numberOf_startOf (hr : 0 < r.capacity) {n : Nat} (hn : r.number ≤ n) :
    r.numberOf (r.startOf n) = n :=
  (numberOf_eq_iff hr hn (r.start_le_startOf n)).2
    ⟨Nat.le_refl _, Nat.lt_add_of_pos_right hr⟩

/-- A run skips no number: every one between those of two nodes is that of a node in between. -/
theorem exists_numberOf_eq (hr : 0 < r.capacity) {n i j : Nat} (hi : r.start ≤ i) (hij : i ≤ j)
    (hin : r.numberOf i ≤ n) (hnj : n ≤ r.numberOf j) :
    ∃ k, i ≤ k ∧ k ≤ j ∧ r.numberOf k = n := by
  have hn : r.number ≤ n := Nat.le_trans (Nat.le_add_right _ _) hin
  rcases Nat.le_total (r.startOf n) i with hle | hle
  · exact ⟨i, Nat.le_refl i, hij, Nat.le_antisymm hin ((startOf_le_iff hr hn hi).1 hle)⟩
  · exact ⟨r.startOf n, hle, (startOf_le_iff hr hn (Nat.le_trans hi hij)).2 hnj,
      numberOf_startOf hr hn⟩

theorem startOf_sub_start_mod (r : ChunkRun) (n : Nat) :
    (r.startOf n - r.start) % r.capacity = 0 := by
  unfold startOf
  rw [Nat.add_sub_cancel_left, Nat.mul_mod_left]

end ChunkRun

namespace Geometry

variable {g : Geometry}

/-! ## The runs of a geometry -/

/-- Chunks at `depth` are larger than those of base size. -/
def Grows (g : Geometry) (depth : Nat) : Prop := g.dynamic = true ∧ g.sparseBegin < depth

instance (g : Geometry) (depth : Nat) : Decidable (g.Grows depth) :=
  inferInstanceAs (Decidable (_ ∧ _))

/-- The chunks of base size. -/
def fixedRun (g : Geometry) : ChunkRun := ⟨g.coldIndexBegin, g.capacity, 0⟩

/-- The chunks at `depth`, if it lies past the sparse depth of a dynamic tree. -/
def sparseRun (g : Geometry) (depth : Nat) : ChunkRun where
  start := g.levelStart depth
  capacity := g.capacity * Level.size g.dimensions (depth - g.sparseBegin)
  number := (g.sparseIndexBegin - g.coldIndexBegin) / g.capacity +
    g.chunksPerSparseDepth * (depth - g.sparseBegin)

/-- The run that holds the nodes at `depth`. -/
def runAt (g : Geometry) (depth : Nat) : ChunkRun :=
  if g.Grows depth then g.sparseRun depth else g.fixedRun

theorem runAt_of_grows {d : Nat} (h : g.Grows d) : g.runAt d = g.sparseRun d := if_pos h

theorem runAt_of_not_grows {d : Nat} (h : ¬ g.Grows d) : g.runAt d = g.fixedRun := if_neg h

/-- Placement of the node at `index` in the run of its depth. -/
def place (g : Geometry) (index : Nat) : Placement :=
  (g.runAt (g.depthOf index)).place index (g.depthOf index) (g.levelStart (g.depthOf index))

/-! ## Levels of a geometry -/

theorem levelStart_succ (g : Geometry) (d : Nat) :
    g.levelStart (d + 1) = g.levelStart d + Level.size g.dimensions d :=
  Level.start_succ g.dimensions_pos d

theorem levelStart_le_levelStart {d e : Nat} (h : d ≤ e) : g.levelStart d ≤ g.levelStart e :=
  Level.start_le_start g.dimensions_pos h

theorem levelStart_le_iff {d i : Nat} : g.levelStart d ≤ i ↔ d ≤ g.depthOf i :=
  Level.start_le_iff g.dimensions_pos

theorem lt_levelStart_iff {d i : Nat} : i < g.levelStart d ↔ g.depthOf i < d :=
  Level.lt_start_iff g.dimensions_pos

theorem levelStart_depthOf_le (g : Geometry) (i : Nat) : g.levelStart (g.depthOf i) ≤ i :=
  Level.start_depth_le g.dimensions_pos i

theorem depthOf_le_depthOf {i j : Nat} (h : i ≤ j) : g.depthOf i ≤ g.depthOf j :=
  levelStart_le_iff.1 (Nat.le_trans (g.levelStart_depthOf_le i) h)

theorem depthOf_eq_iff {d i : Nat} :
    g.depthOf i = d ↔ g.levelStart d ≤ i ∧ i < g.levelStart (d + 1) :=
  Level.depth_eq_iff g.dimensions_pos

theorem depthOf_levelStart (g : Geometry) (d : Nat) : g.depthOf (g.levelStart d) = d :=
  Level.depth_start g.dimensions_pos d

/-! ## Lookups -/

section

variable (hw : g.WellFormed) (hc : g.hasCold = true)
include hw hc

theorem capacity_eq_size : g.capacity = Level.size g.dimensions g.nominalDepth :=
  hw.capacity_eq (Or.inl hc)

theorem capacity_pos : 0 < g.capacity := by
  rw [capacity_eq_size hw hc]
  exact Level.size_pos _ _

theorem runAt_capacity_pos (d : Nat) : 0 < (g.runAt d).capacity := by
  unfold runAt
  split
  · exact Nat.mul_pos (capacity_pos hw hc) (Level.size_pos _ _)
  · exact capacity_pos hw hc

omit hw hc in
/-- A chunked node lies in or past the first chunk of its run. -/
theorem runAt_start_le {i : Nat} (hi : g.coldIndexBegin ≤ i) :
    (g.runAt (g.depthOf i)).start ≤ i := by
  unfold runAt
  split
  · exact g.levelStart_depthOf_le i
  · exact hi

theorem locateFixed_of_le {i d l : Nat} (hi : g.coldIndexBegin ≤ i) :
    g.locateFixed i d l = .ok (g.fixedRun.place i d l) := by
  unfold locateFixed
  simp only [Checked.sub_of_le hi, Checked.divMod_of_pos (capacity_pos hw hc), ok_bind]
  simp only [ChunkRun.place, ChunkRun.startOf, ChunkRun.numberOf, fixedRun, Nat.zero_add,
    Nat.sub_zero]
  rfl

theorem locateSparse_of_le {i d l : Nat} (hl : l = g.levelStart d) (hi : l ≤ i)
    (hd : g.sparseBegin ≤ d) (hr : g.Reaches d) :
    g.locateSparse i d l = .ok ((g.sparseRun d).place i d l) := by
  have hgrowth : Level.power? g.dimensions (d - g.sparseBegin) =
      .ok (Level.size g.dimensions (d - g.sparseBegin)) :=
    Level.size?_eq_ok_iff.2 ⟨hr.of_le (Nat.sub_le _ _), rfl⟩
  have hspan : g.coldIndexBegin ≤ g.sparseIndexBegin :=
    levelStart_le_levelStart hw.coldBegin_le_sparseBegin
  have hcap := capacity_pos hw hc
  have hlarge : 0 < g.capacity * Level.size g.dimensions (d - g.sparseBegin) :=
    Nat.mul_pos hcap (Level.size_pos _ _)
  unfold locateSparse
  simp only [Checked.sub_of_le hd, hgrowth, Checked.sub_of_le hspan, Checked.div_of_pos hcap,
    Checked.sub_of_le hi, Checked.divMod_of_pos hlarge, ok_bind]
  subst hl
  simp only [ChunkRun.place, ChunkRun.startOf, ChunkRun.numberOf, sparseRun,
    Nat.add_sub_cancel_left]
  rfl

theorem locate_of_reaches {i : Nat} (hi : g.coldIndexBegin ≤ i) (hr : g.Reaches (g.depthOf i)) :
    g.locate i = .ok (g.place i) := by
  have hstart := start?_of_reaches hr
  have hbranch : (!g.dynamic || decide (g.levelStart (g.depthOf i) ≤ g.sparseIndexBegin)) = true ↔
      ¬ g.Grows (g.depthOf i) := by
    have hle : g.levelStart (g.depthOf i) ≤ g.sparseIndexBegin ↔ g.depthOf i ≤ g.sparseBegin :=
      Level.start_le_start_iff g.dimensions_pos
    unfold Grows
    rw [Bool.or_eq_true, decide_eq_true_eq, hle]
    cases g.dynamic <;> simp
  unfold locate place runAt
  simp only [Checked.require, hc, decide_eq_true hi, if_true, hstart, ok_bind]
  by_cases hg : g.Grows (g.depthOf i)
  · rw [if_neg (fun h => hbranch.1 h hg), if_pos hg]
    exact locateSparse_of_le hw hc rfl (g.levelStart_depthOf_le i) (Nat.le_of_lt hg.2) hr
  · rw [if_pos (hbranch.2 hg), if_neg hg]
    exact locateFixed_of_le hw hc hi

theorem locate_eq_ok_iff {i : Nat} {p : Placement} :
    g.locate i = .ok p ↔ g.coldIndexBegin ≤ i ∧ g.Reaches (g.depthOf i) ∧ g.place i = p := by
  constructor
  · intro h
    have hchecks : g.coldIndexBegin ≤ i ∧ g.Reaches (g.depthOf i) := by
      unfold locate at h
      simp only [bind_eq_ok_iff, Checked.require_eq_ok_iff, decide_eq_true_eq,
        start?_eq_ok_iff] at h
      obtain ⟨_, _, _, hi, _, ⟨hr, _⟩, _⟩ := h
      exact ⟨hi, hr⟩
    refine ⟨hchecks.1, hchecks.2, ?_⟩
    rw [locate_of_reaches hw hc hchecks.1 hchecks.2] at h
    exact Except.ok.inj h
  · intro h
    obtain ⟨hi, hr, rfl⟩ := h
    exact locate_of_reaches hw hc hi hr

end

end Geometry

end ChunkedTree
