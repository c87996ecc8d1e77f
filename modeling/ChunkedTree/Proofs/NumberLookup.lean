/-
  From a number to its chunk.

  Every number belongs to one run (`runOf`), and its chunk begins at `firstNode`. These first
  nodes are their own chunk starts and bear the number they were found by (`place_firstNode`);
  each chunk ends before the next one begins (`firstNode_add_capacity_le`), and exactly where it
  begins unless the two lie on either side of the seam (`firstNode_succ`).

  `locateNumber_eq_ok_iff`: looking up a number succeeds exactly if the depth of that first node
  is in reach, and in a dynamic tree the depth after the sparse one too.
-/
import ChunkedTree.Numbering
import ChunkedTree.Proofs.Seam

namespace ChunkedTree.Geometry

variable {g : Geometry}

/-- The run that holds the chunk with the given number. -/
def runOf (g : Geometry) (number : Nat) : ChunkRun :=
  if g.dynamic = true ∧ g.fixedChunks ≤ number then
    g.sparseRun (g.sparseBegin + 1 + (number - g.fixedChunks) / g.chunksPerSparseDepth)
  else g.fixedRun

/-- Index of the first node in the chunk with the given number. -/
def firstNode (g : Geometry) (number : Nat) : Nat := (g.runOf number).startOf number

/-! ## Numbers of base-size chunks and of larger ones -/

theorem runOf_fixed {n : Nat} (h : g.dynamic = true → n < g.fixedChunks) :
    g.runOf n = g.fixedRun := by
  unfold runOf
  rw [if_neg]
  intro hsparse
  exact Nat.not_lt_of_le hsparse.2 (h hsparse.1)

theorem firstNode_fixed {n : Nat} (h : g.dynamic = true → n < g.fixedChunks) :
    g.firstNode n = g.coldIndexBegin + n * g.capacity := by
  unfold firstNode
  rw [runOf_fixed h]
  rfl

/-- A number past those of base-size chunks names a depth past the sparse one and a place in it. -/
theorem exists_place_of_le (hd : g.dynamic = true) {n : Nat} (h : g.fixedChunks ≤ n) :
    ∃ q r, r < g.chunksPerSparseDepth ∧ n = g.fixedChunks + (g.chunksPerSparseDepth * q + r) := by
  refine ⟨(n - g.fixedChunks) / g.chunksPerSparseDepth,
    (n - g.fixedChunks) % g.chunksPerSparseDepth,
    Nat.mod_lt _ (chunksPerSparseDepth_pos hd), ?_⟩
  rw [Nat.div_add_mod]
  omega

section

variable (hd : g.dynamic = true) {q r : Nat} (hr : r < g.chunksPerSparseDepth)
include hd hr

theorem runOf_sparse :
    g.runOf (g.fixedChunks + (g.chunksPerSparseDepth * q + r)) =
      g.sparseRun (g.sparseBegin + 1 + q) := by
  unfold runOf
  rw [if_pos ⟨hd, Nat.le_add_right _ _⟩, Nat.add_sub_cancel_left,
    Nat.mul_add_div (chunksPerSparseDepth_pos hd), Nat.div_eq_of_lt hr, Nat.add_zero q]

variable (hw : g.WellFormed) (hc : g.hasCold = true)
include hw hc

omit hr in
theorem sparseRun_number_add : (g.sparseRun (g.sparseBegin + 1 + q)).number =
    g.fixedChunks + g.chunksPerSparseDepth * q := by
  rw [sparseRun_number_eq hw hc hd (by omega), Nat.add_sub_cancel_left]

theorem firstNode_sparse :
    g.firstNode (g.fixedChunks + (g.chunksPerSparseDepth * q + r)) =
      g.levelStart (g.sparseBegin + 1 + q) +
        r * (g.sparseRun (g.sparseBegin + 1 + q)).capacity := by
  unfold firstNode
  rw [runOf_sparse hd hr, ChunkRun.startOf, sparseRun_number_add hd hw hc, ← Nat.add_assoc,
    Nat.add_sub_cancel_left]
  rfl

theorem depthOf_firstNode_sparse :
    g.depthOf (g.firstNode (g.fixedChunks + (g.chunksPerSparseDepth * q + r))) =
      g.sparseBegin + 1 + q := by
  have hcap := sparseRun_capacity_mul hw hd (d := g.sparseBegin + 1 + q) (by omega)
  have hlt : (r + 1) * (g.sparseRun (g.sparseBegin + 1 + q)).capacity ≤
      g.chunksPerSparseDepth * (g.sparseRun (g.sparseBegin + 1 + q)).capacity :=
    Nat.mul_le_mul_right _ hr
  have hpos : 0 < (g.sparseRun (g.sparseBegin + 1 + q)).capacity :=
    Nat.mul_pos (capacity_pos hw hc) (Level.size_pos _ _)
  rw [firstNode_sparse hd hr hw hc, depthOf_eq_iff, levelStart_succ, ← hcap]
  rw [Nat.succ_mul, Nat.mul_comm g.chunksPerSparseDepth] at hlt
  omega

end

/-! ## The chunk with a given number -/

section

variable (hw : g.WellFormed) (hc : g.hasCold = true)
include hw hc

theorem not_grows_firstNode_fixed {n : Nat} (h : g.dynamic = true → n < g.fixedChunks) :
    ¬ g.Grows (g.depthOf (g.firstNode n)) := by
  intro hg
  obtain ⟨hd, hlt⟩ := hg
  have hpast : g.levelStart (g.sparseBegin + 1) ≤ g.firstNode n := levelStart_le_iff.2 hlt
  have hnext : (n + 1) * g.capacity ≤ g.fixedChunks * g.capacity :=
    Nat.mul_le_mul_right _ (h hd)
  have hend := fixedEnd_le hw
  have hpos := capacity_pos hw hc
  rw [fixedEnd_eq_add] at hend
  rw [firstNode_fixed h] at hpast
  rw [Nat.succ_mul] at hnext
  omega

/-- A chunk's first node lies at a depth that the chunk's run holds. -/
theorem runAt_depthOf_firstNode (n : Nat) : g.runAt (g.depthOf (g.firstNode n)) = g.runOf n := by
  by_cases h : g.dynamic = true ∧ g.fixedChunks ≤ n
  · obtain ⟨hd, hn⟩ := h
    obtain ⟨q, r, hr, rfl⟩ := exists_place_of_le hd hn
    rw [depthOf_firstNode_sparse hd hr hw hc, runOf_sparse hd hr]
    exact runAt_of_grows ⟨hd, by omega⟩
  · have hn : g.dynamic = true → n < g.fixedChunks :=
      fun hd => Nat.lt_of_not_le (not_and.1 h hd)
    rw [runAt_of_not_grows (not_grows_firstNode_fixed hw hc hn), runOf_fixed hn]

theorem runOf_capacity_pos (n : Nat) : 0 < (g.runOf n).capacity := by
  rw [← runAt_depthOf_firstNode hw hc]
  exact runAt_capacity_pos hw hc _

theorem runOf_number_le (n : Nat) : (g.runOf n).number ≤ n := by
  by_cases h : g.dynamic = true ∧ g.fixedChunks ≤ n
  · obtain ⟨q, r, hr, rfl⟩ := exists_place_of_le h.1 h.2
    rw [runOf_sparse h.1 hr, sparseRun_number_add h.1 hw hc]
    omega
  · unfold runOf
    rw [if_neg h]
    exact Nat.zero_le n

/-- The first node of chunk `n` is placed at the start of chunk `n`. -/
theorem place_firstNode (n : Nat) :
    (g.place (g.firstNode n)).number = n ∧ (g.place (g.firstNode n)).offset = 0 ∧
      (g.place (g.firstNode n)).chunkStart = g.firstNode n ∧
      (g.place (g.firstNode n)).capacity = (g.runOf n).capacity := by
  have hnumber : (g.runOf n).numberOf (g.firstNode n) = n :=
    ChunkRun.numberOf_startOf (runOf_capacity_pos hw hc n) (runOf_number_le hw hc n)
  unfold place
  rw [runAt_depthOf_firstNode hw hc]
  refine ⟨hnumber, ChunkRun.startOf_sub_start_mod _ n, ?_, rfl⟩
  change (g.runOf n).startOf ((g.runOf n).numberOf (g.firstNode n)) = g.firstNode n
  rw [hnumber]
  rfl

/-! ## Chunks in the order of their numbers -/

theorem firstNode_fixedChunks (hd : g.dynamic = true) :
    g.firstNode g.fixedChunks = g.levelStart (g.sparseBegin + 1) := by
  have h := firstNode_sparse hd (q := 0) (chunksPerSparseDepth_pos hd) hw hc
  simpa using h

/-- A larger chunk ends where the next one begins. -/
theorem firstNode_succ_sparse (hd : g.dynamic = true) {q r : Nat}
    (hr : r < g.chunksPerSparseDepth) :
    g.firstNode (g.fixedChunks + (g.chunksPerSparseDepth * q + r) + 1) =
      g.firstNode (g.fixedChunks + (g.chunksPerSparseDepth * q + r)) +
        (g.sparseRun (g.sparseBegin + 1 + q)).capacity := by
  rw [firstNode_sparse hd hr hw hc]
  -- the next chunk lies at the same depth, or is the first one of the next depth
  rcases Nat.lt_or_eq_of_le (Nat.succ_le_of_lt hr) with hr' | hr'
  · have hnext : g.fixedChunks + (g.chunksPerSparseDepth * q + r) + 1 =
        g.fixedChunks + (g.chunksPerSparseDepth * q + (r + 1)) := by omega
    rw [hnext, firstNode_sparse hd hr' hw hc, Nat.succ_mul]
    omega
  · have hnext : g.fixedChunks + (g.chunksPerSparseDepth * q + r) + 1 =
        g.fixedChunks + (g.chunksPerSparseDepth * (q + 1) + 0) := by
      rw [Nat.mul_succ]
      omega
    have hcap := sparseRun_capacity_mul hw hd (d := g.sparseBegin + 1 + q) (by omega)
    have hlevel : g.sparseBegin + 1 + (q + 1) = g.sparseBegin + 1 + q + 1 := by omega
    rw [← hr', Nat.mul_succ, Nat.mul_comm _ r] at hcap
    rw [hnext, firstNode_sparse hd (chunksPerSparseDepth_pos hd) hw hc, hlevel, levelStart_succ]
    omega

/-- Except at the seam, a chunk ends where the next one begins. -/
theorem firstNode_succ {n : Nat} (hn : ¬ (g.dynamic = true ∧ n + 1 = g.fixedChunks)) :
    g.firstNode (n + 1) = g.firstNode n + (g.runOf n).capacity := by
  by_cases h : g.dynamic = true ∧ g.fixedChunks ≤ n
  · obtain ⟨hd, hle⟩ := h
    obtain ⟨q, r, hr, rfl⟩ := exists_place_of_le hd hle
    rw [runOf_sparse hd hr]
    exact firstNode_succ_sparse hw hc hd hr
  · have hfixed : g.dynamic = true → n + 1 < g.fixedChunks := by
      intro hd
      have hle : ¬ g.fixedChunks ≤ n := not_and.1 h hd
      have hne : n + 1 ≠ g.fixedChunks := not_and.1 hn hd
      omega
    have hfixed' : g.dynamic = true → n < g.fixedChunks :=
      fun hd => Nat.lt_of_succ_lt (hfixed hd)
    rw [firstNode_fixed hfixed, firstNode_fixed hfixed', runOf_fixed hfixed', Nat.succ_mul,
      Nat.add_assoc]
    rfl

/-- No chunk reaches into the next one. -/
theorem firstNode_add_capacity_le_succ (n : Nat) :
    g.firstNode n + (g.runOf n).capacity ≤ g.firstNode (n + 1) := by
  by_cases hn : g.dynamic = true ∧ n + 1 = g.fixedChunks
  · obtain ⟨hd, hseam⟩ := hn
    have hfixed : g.dynamic = true → n < g.fixedChunks := fun _ => by omega
    have hend := fixedEnd_le hw
    rw [fixedEnd_eq_add, ← hseam, Nat.succ_mul, ← Nat.add_assoc] at hend
    rw [hseam, firstNode_fixedChunks hw hc hd, firstNode_fixed hfixed, runOf_fixed hfixed]
    exact hend
  · rw [firstNode_succ hw hc hn]

theorem firstNode_add_capacity_le {n m : Nat} (h : n < m) :
    g.firstNode n + (g.runOf n).capacity ≤ g.firstNode m := by
  induction m with
  | zero => omega
  | succ m ih =>
    have hstep := firstNode_add_capacity_le_succ hw hc m
    rcases Nat.lt_or_eq_of_le (Nat.le_of_lt_succ h) with hlt | rfl
    · have := ih hlt
      omega
    · exact hstep

theorem firstNode_le_firstNode {n m : Nat} (h : n ≤ m) : g.firstNode n ≤ g.firstNode m := by
  rcases Nat.lt_or_eq_of_le h with hlt | rfl
  · exact Nat.le_trans (Nat.le_add_right _ _) (firstNode_add_capacity_le hw hc hlt)
  · exact Nat.le_refl _

/-! ## The checked lookup -/

omit hc in
theorem sparseChunkStart?_eq_ok_iff (hd : g.dynamic = true) {n i q r : Nat}
    (hr : r < g.chunksPerSparseDepth) :
    g.sparseChunkStart? n (g.chunksPerSparseDepth * q + r) = .ok i ↔
      g.Reaches (g.sparseBegin + 1 + q) ∧
        g.levelStart (g.sparseBegin + 1 + q) +
          r * (g.sparseRun (g.sparseBegin + 1 + q)).capacity = i := by
  have hpos := chunksPerSparseDepth_pos hd
  have hquot : (g.chunksPerSparseDepth * q + r) / g.chunksPerSparseDepth = q := by
    rw [Nat.mul_add_div hpos, Nat.div_eq_of_lt hr, Nat.add_zero q]
  have hrest : (g.chunksPerSparseDepth * q + r) % g.chunksPerSparseDepth = r := by
    rw [Nat.mul_add_mod, Nat.mod_eq_of_lt hr]
  have hcap : Level.size g.dimensions (g.sparseBegin + 1 + q) / g.chunksPerSparseDepth =
      (g.sparseRun (g.sparseBegin + 1 + q)).capacity := by
    rw [← sparseRun_capacity_mul hw hd (by omega), Nat.mul_div_cancel _ hpos]
  unfold sparseChunkStart?
  simp only [Checked.divMod_of_pos hpos, hquot, hrest, ok_bind, bind_eq_ok_iff,
    Checked.require_eq_ok_iff, decide_eq_true_eq, start?_eq_ok_iff, Level.size?_eq_ok_iff,
    Checked.div_of_pos hpos, pure_eq_ok_iff]
  constructor
  · intro h
    obtain ⟨_, _, _, ⟨hreach, rfl⟩, _, ⟨_, rfl⟩, rfl⟩ := h
    have hreach' := reaches_min_maxWord_iff.1 hreach
    refine ⟨hreach', ?_⟩
    rw [Nat.min_eq_left hreach'.le_maxWord, hcap]
  · intro h
    obtain ⟨hreach, rfl⟩ := h
    have hword := hreach.le_maxWord
    refine ⟨(), by omega, _, ⟨reaches_min_maxWord_iff.2 hreach, rfl⟩, _,
      ⟨reaches_min_maxWord_iff.2 hreach, rfl⟩, ?_⟩
    rw [Nat.min_eq_left hword, hcap]

/-- The chunk count that a lookup compares the number with is `fixedChunks`. -/
theorem chunkStart?_of_dynamic (hd : g.dynamic = true) (hr : g.Reaches (g.sparseBegin + 1))
    (n : Nat) :
    g.chunkStart? n = if n < g.fixedChunks then .ok (g.coldIndexBegin + n * g.capacity)
      else g.sparseChunkStart? n (n - g.fixedChunks) := by
  have hstart := start?_of_reaches hr
  have hle : g.coldIndexBegin ≤ g.levelStart (g.sparseBegin + 1) := by
    rw [← coldIndexBegin_add_fixedSpan hw]
    exact Nat.le_add_right _ _
  unfold chunkStart?
  rw [if_pos hd]
  simp only [Checked.word_of_le hr.le_maxWord, hstart, Checked.sub_of_le hle,
    Checked.div_of_pos (capacity_pos hw hc), ok_bind]
  rfl

omit hw hc in
/-- In a dynamic tree a lookup first asks for the seam. -/
theorem reaches_of_chunkStart? (hd : g.dynamic = true) {n i : Nat} (h : g.chunkStart? n = .ok i) :
    g.Reaches (g.sparseBegin + 1) := by
  unfold chunkStart? at h
  rw [if_pos hd] at h
  simp only [bind_eq_ok_iff, Checked.word_eq_ok_iff, start?_eq_ok_iff] at h
  obtain ⟨_, ⟨_, rfl⟩, _, ⟨hreach, _⟩, _⟩ := h
  exact hreach

theorem chunkStart?_eq_ok_iff_of_reaches (hd : g.dynamic = true)
    (hr : g.Reaches (g.sparseBegin + 1)) {n i : Nat} :
    g.chunkStart? n = .ok i ↔ g.Reaches (g.depthOf (g.firstNode n)) ∧ g.firstNode n = i := by
  rw [chunkStart?_of_dynamic hw hc hd hr]
  by_cases hn : n < g.fixedChunks
  · have hshallow : g.depthOf (g.firstNode n) ≤ g.sparseBegin := by
      by_contra hcon
      exact not_grows_firstNode_fixed hw hc (fun _ => hn) ⟨hd, Nat.lt_of_not_le hcon⟩
    rw [if_pos hn, ← firstNode_fixed (fun _ => hn), Except.ok.injEq]
    exact (and_iff_right (hr.of_le (Nat.le_succ_of_le hshallow))).symm
  · obtain ⟨q, r, hr, rfl⟩ := exists_place_of_le hd (Nat.le_of_not_lt hn)
    rw [if_neg hn, Nat.add_sub_cancel_left, sparseChunkStart?_eq_ok_iff hw hd hr,
      depthOf_firstNode_sparse hd hr hw hc, firstNode_sparse hd hr hw hc]

theorem chunkStart?_eq_ok_iff {n i : Nat} :
    g.chunkStart? n = .ok i ↔ (g.dynamic = true → g.Reaches (g.sparseBegin + 1) ∧
      g.Reaches (g.depthOf (g.firstNode n))) ∧ g.firstNode n = i := by
  by_cases hd : g.dynamic = true
  · constructor
    · intro h
      have hseam := reaches_of_chunkStart? hd h
      obtain ⟨hreach, hnode⟩ := (chunkStart?_eq_ok_iff_of_reaches hw hc hd hseam).1 h
      exact ⟨fun _ => ⟨hseam, hreach⟩, hnode⟩
    · intro h
      obtain ⟨hseam, hreach⟩ := h.1 hd
      exact (chunkStart?_eq_ok_iff_of_reaches hw hc hd hseam).2 ⟨hreach, h.2⟩
  · unfold chunkStart?
    rw [if_neg hd, firstNode_fixed (fun h => absurd h hd), pure_eq_ok_iff]
    exact (and_iff_right (fun h => absurd h hd)).symm

omit hc in
theorem coldIndexBegin_le_firstNode (n : Nat) : g.coldIndexBegin ≤ g.firstNode n := by
  refine Nat.le_trans ?_ (ChunkRun.start_le_startOf _ _)
  unfold runOf
  split
  · have hdeeper : g.sparseBegin ≤ g.sparseBegin + 1 +
        (n - g.fixedChunks) / g.chunksPerSparseDepth :=
      Nat.le_trans (Nat.le_succ _) (Nat.le_add_right _ _)
    exact levelStart_le_levelStart (Nat.le_trans hw.coldBegin_le_sparseBegin hdeeper)
  · exact Nat.le_refl _

/-- A lookup of a number succeeds exactly if the chunk's first node can be located, and in a
    dynamic tree the seam as well. -/
theorem locateNumber_eq_ok_iff {n : Nat} {p : Placement} :
    g.locateNumber n = .ok p ↔ (g.dynamic = true → g.Reaches (g.sparseBegin + 1)) ∧
      g.Reaches (g.depthOf (g.firstNode n)) ∧ g.place (g.firstNode n) = p := by
  unfold locateNumber
  simp only [bind_eq_ok_iff, chunkStart?_eq_ok_iff hw hc, locate_eq_ok_iff hw hc]
  constructor
  · intro h
    obtain ⟨_, ⟨hseam, rfl⟩, _, hreach, hplace⟩ := h
    exact ⟨fun hd => (hseam hd).1, hreach, hplace⟩
  · intro h
    obtain ⟨hseam, hreach, hplace⟩ := h
    exact ⟨_, ⟨fun hd => ⟨hseam hd, hreach⟩, rfl⟩, coldIndexBegin_le_firstNode hw n, hreach, hplace⟩

end

end ChunkedTree.Geometry
