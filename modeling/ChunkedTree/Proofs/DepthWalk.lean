/-
  Walking a depth, chunk by chunk.

  A walk takes the chunks with the numbers it goes over, one lookup each (`ChunkWalk.take_eq_map`).
  From the first number of an aligned depth on every chunk ends where the next one begins
  (`firstNode_succ_of_aligned`), also if chunks above the depth are torn. As many chunks as the
  depth's count therefore end with the depth (`firstNode_firstNumber_add_chunkCount`), and the
  numbers of the next depth continue right after theirs (`firstNumber_succ`). These chunks
  (`depthChunks`) are what a walk takes (`toList_of_aligned`).

  `CoversDepth` says what comes of it: the chunks tile the depth, and the chunk of each of its nodes
  is among them once.
-/
import ChunkedTree.Proofs.Alignment
import ChunkedTree.Proofs.Packing

namespace ChunkedTree

/-! ## Chunks that follow each other -/

/-- The chunks cover the nodes from `start` up to, but not including, `stop`: each one begins where
    the one before it ends. -/
def Placement.Tile : Nat → Nat → List Placement → Prop
  | start, stop, [] => start = stop
  | start, stop, p :: chunks => p.chunkStart = start ∧ Tile (start + p.capacity) stop chunks

namespace ChunkWalk

/-- A walk whose numbers can be looked up takes what the lookups answer, in their order, and stops
    when there is no number left. -/
theorem take_eq_map {f : Nat → Placement} (m : Nat) : ∀ chunks : ChunkWalk,
    (∀ n, chunks.next ≤ n → n < chunks.stop → chunks.geometry.locateNumber n = .ok (f n)) →
    chunks.take m =
      .ok (((List.range' chunks.next (chunks.stop - chunks.next)).map f).take m) := by
  induction m with
  | zero =>
    intro chunks _
    rfl
  | succ m ih =>
    intro chunks hlocate
    unfold take next?
    by_cases hlt : chunks.next < chunks.stop
    · obtain ⟨count, hcount⟩ := Nat.exists_eq_add_of_le hlt
      have hspan : chunks.stop - chunks.next = count + 1 := by omega
      have hspan' : chunks.stop - (chunks.next + 1) = count := by omega
      have hrest := ih { chunks with next := chunks.next + 1 }
        (fun n hn => hlocate n (Nat.le_of_succ_le hn))
      rw [if_pos hlt, hlocate _ (Nat.le_refl _) hlt, hspan, List.range'_succ]
      simp only [ok_bind, pure_bind, hrest, hspan']
      rfl
    · rw [if_neg hlt, Nat.sub_eq_zero_of_le (Nat.le_of_not_lt hlt)]
      rfl

end ChunkWalk

namespace Geometry

variable {g : Geometry} {d : Nat}

/-- Placement of the first node in the chunk with the given number. -/
def placeNumber (g : Geometry) (number : Nat) : Placement := g.place (g.firstNode number)

/-- The chunks that an aligned depth fills, in the order of their numbers. -/
def depthChunks (g : Geometry) (depth : Nat) : List Placement :=
  (List.range' (g.firstNumber depth) (g.chunkCount depth)).map g.placeNumber

theorem length_depthChunks (g : Geometry) (d : Nat) :
    (g.depthChunks d).length = g.chunkCount d := by
  rw [depthChunks, List.length_map, List.length_range']

theorem getElem?_depthChunks {k : Nat} {p : Placement} : (g.depthChunks d)[k]? = some p ↔
    k < g.chunkCount d ∧ g.placeNumber (g.firstNumber d + k) = p := by
  simp [depthChunks, List.getElem?_eq_some_iff]

/-- The chunks `ps`, numbered from `first` on, are those of `depth`. -/
structure CoversDepth (g : Geometry) (depth first : Nat) (ps : List Placement) : Prop where
  nonempty : 0 < ps.length
  /-- Every chunk is given by its first node, which lies at this depth. -/
  numbered : ∀ k p, ps[k]? = some p → p.depth = depth ∧ p.offset = 0 ∧ p.number = first + k
  tile : Placement.Tile (g.levelStart depth) (g.levelStart (depth + 1)) ps
  /-- The chunk of every node at this depth is one of them, and only one. -/
  once : ∀ i, g.depthOf i = depth → ∃ p, g.locate i = .ok p ∧
    ∃! k : Nat, ∃ q : Placement, ps[k]? = some q ∧ q.number = p.number ∧ q.chunkStart = p.chunkStart

section

variable (hw : g.WellFormed) (hc : g.hasCold = true)
include hw hc

/-! ## The chunks of an aligned depth -/

/-- Chunks fill the nodes at an aligned depth, with nothing left over. -/
theorem chunkCount_mul_capacity (hd : g.coldBegin ≤ d) (ha : g.Aligned d) :
    g.chunkCount d * (g.runAt d).capacity = Level.size g.dimensions d := by
  apply Nat.div_mul_cancel
  by_cases hg : g.Grows d
  · rw [runAt_of_grows hg]
    exact Dvd.intro _ (sparseRun_capacity_mul hw hg.1 (Nat.le_of_lt hg.2))
  · have hn := ((aligned_iff hw hc hd).1 ha).resolve_right hg
    rw [runAt_of_not_grows hg]
    change g.capacity ∣ _
    rw [capacity_eq_size hw hc, ← Nat.add_sub_cancel' (Nat.le_trans hn hd), Level.size_add]
    exact Nat.dvd_mul_right _ _

theorem depthOf_levelStart_add_mul (hd : g.coldBegin ≤ d) (ha : g.Aligned d) {k : Nat}
    (hk : k < g.chunkCount d) : g.depthOf (g.levelStart d + k * (g.runAt d).capacity) = d := by
  have hspan := chunkCount_mul_capacity hw hc hd ha
  have hlast := Nat.mul_lt_mul_of_pos_right hk (runAt_capacity_pos hw hc d)
  rw [depthOf_eq_iff, levelStart_succ]
  omega

theorem not_inTornChunk_of_aligned {i : Nat} (hi : g.coldIndexBegin ≤ i)
    (ha : g.Aligned (g.depthOf i)) : ¬ g.InTornChunk i := by
  rcases (aligned_iff hw hc (levelStart_le_iff.1 hi)).1 ha with hn | hg
  · exact not_inTornChunk hw hc (fun _ => hn) i
  · exact fun ht => not_grows_of_lt ht.2.2 hg

theorem firstNode_firstNumber (hd : g.coldBegin ≤ d) (ha : g.Aligned d) :
    g.firstNode (g.firstNumber d) = g.levelStart d := by
  have hi : g.coldIndexBegin ≤ g.levelStart d := levelStart_le_levelStart hd
  have ht : ¬ g.InTornChunk (g.levelStart d) := by
    apply not_inTornChunk_of_aligned hw hc hi
    rwa [depthOf_levelStart]
  have hsum := chunkStart_add_offset hi
  rw [ha.1, Nat.add_zero] at hsum
  exact ((firstNode_number_iff hw hc hi).2 ht).trans hsum

/-- From the first number of an aligned depth on, every chunk ends where the next one begins. -/
theorem firstNode_succ_of_aligned (hd : g.coldBegin ≤ d) (ha : g.Aligned d) {n : Nat}
    (hn : g.firstNumber d ≤ n) : g.firstNode (n + 1) = g.firstNode n + (g.runOf n).capacity := by
  rcases (aligned_iff hw hc hd).1 ha with hle | hg
  · exact firstNode_succ_of_untorn hw hc (fun _ => hle) n
  · apply firstNode_succ hw hc
    intro hseam
    -- the seam lies before the first larger chunk
    have hfirst := firstNode_firstNumber hw hc hd ha
    have hpast := firstNode_add_capacity_le hw hc (n := g.firstNumber d) (m := g.fixedChunks)
      (by omega)
    have hpos := runOf_capacity_pos hw hc (g.firstNumber d)
    rw [firstNode_fixedChunks hw hc hg.1] at hpast
    have hdeep : g.levelStart (g.sparseBegin + 1) ≤ g.levelStart d := levelStart_le_levelStart hg.2
    omega

/-- Up to the end of an aligned depth its chunks begin at multiples of the capacity. -/
theorem firstNode_firstNumber_add (hd : g.coldBegin ≤ d) (ha : g.Aligned d) {k : Nat}
    (hk : k ≤ g.chunkCount d) :
    g.firstNode (g.firstNumber d + k) = g.levelStart d + k * (g.runAt d).capacity := by
  induction k with
  | zero => rw [Nat.zero_mul, Nat.add_zero, Nat.add_zero, firstNode_firstNumber hw hc hd ha]
  | succ k ih =>
    have hnode := ih (Nat.le_of_succ_le hk)
    have hdepth := depthOf_levelStart_add_mul hw hc hd ha hk
    rw [← Nat.add_assoc, firstNode_succ_of_aligned hw hc hd ha (Nat.le_add_right _ _),
      ← runAt_depthOf_firstNode hw hc, hnode, hdepth, Nat.succ_mul, Nat.add_assoc]

theorem firstNode_firstNumber_add_chunkCount (hd : g.coldBegin ≤ d) (ha : g.Aligned d) :
    g.firstNode (g.firstNumber d + g.chunkCount d) = g.levelStart (d + 1) := by
  rw [firstNode_firstNumber_add hw hc hd ha (Nat.le_refl _), chunkCount_mul_capacity hw hc hd ha,
    levelStart_succ]

theorem depthOf_firstNode_of_aligned (hd : g.coldBegin ≤ d) (ha : g.Aligned d) {k : Nat}
    (hk : k < g.chunkCount d) : g.depthOf (g.firstNode (g.firstNumber d + k)) = d := by
  rw [firstNode_firstNumber_add hw hc hd ha (Nat.le_of_lt hk),
    depthOf_levelStart_add_mul hw hc hd ha hk]

/-- The numbers of the next depth continue right after those of an aligned one. -/
theorem firstNumber_succ (hd : g.coldBegin ≤ d) (ha : g.Aligned d) :
    g.firstNumber (d + 1) = g.firstNumber d + g.chunkCount d := by
  have hnumber := (place_firstNode hw hc (g.firstNumber d + g.chunkCount d)).1
  rwa [firstNode_firstNumber_add_chunkCount hw hc hd ha] at hnumber

theorem chunkCount_pos (hd : g.coldBegin ≤ d) (ha : g.Aligned d) : 0 < g.chunkCount d := by
  apply Nat.pos_of_mul_pos_right (b := (g.runAt d).capacity)
  rw [chunkCount_mul_capacity hw hc hd ha]
  exact Level.size_pos _ _

/-! ## What a walk visits -/

theorem locateNumber_of_aligned (hd : g.coldBegin ≤ d) (ha : g.Aligned d) (hr : g.Reaches d)
    (hs : g.dynamic = true → g.Reaches (g.sparseBegin + 1)) {k : Nat} (hk : k < g.chunkCount d) :
    g.locateNumber (g.firstNumber d + k) = .ok (g.placeNumber (g.firstNumber d + k)) := by
  rw [locateNumber_eq_ok_iff hw hc, depthOf_firstNode_of_aligned hw hc hd ha hk]
  exact ⟨hs, hr, rfl⟩

theorem locateNumber_of_lt (hd : g.coldBegin ≤ d) (ha : g.Aligned d) (hr : g.Reaches d)
    (hs : g.dynamic = true → g.Reaches (g.sparseBegin + 1)) (n : Nat) (hn : g.firstNumber d ≤ n)
    (hlt : n < g.firstNumber d + g.chunkCount d) : g.locateNumber n = .ok (g.placeNumber n) := by
  obtain ⟨k, rfl⟩ := Nat.exists_eq_add_of_le hn
  exact locateNumber_of_aligned hw hc hd ha hr hs (Nat.lt_of_add_lt_add_left hlt)

theorem take_of_aligned (hd : g.coldBegin ≤ d) (ha : g.Aligned d) (hr : g.Reaches d)
    (hs : g.dynamic = true → g.Reaches (g.sparseBegin + 1)) (m : Nat) :
    ChunkWalk.take m ⟨g, g.firstNumber d, g.firstNumber d + g.chunkCount d⟩ =
      .ok ((g.depthChunks d).take m) := by
  rw [ChunkWalk.take_eq_map m _ (locateNumber_of_lt hw hc hd ha hr hs), Nat.add_sub_cancel_left]
  rfl

/-- A walk of an aligned depth takes the chunks that the depth fills, and no others. -/
theorem toList_of_aligned (hd : g.coldBegin ≤ d) (ha : g.Aligned d) (hr : g.Reaches d)
    (hs : g.dynamic = true → g.Reaches (g.sparseBegin + 1)) :
    ChunkWalk.toList ⟨g, g.firstNumber d, g.firstNumber d + g.chunkCount d⟩ =
      .ok (g.depthChunks d) := by
  rw [ChunkWalk.toList, take_of_aligned hw hc hd ha hr hs, Nat.add_sub_cancel_left,
    List.take_of_length_le (Nat.le_of_eq (g.length_depthChunks d))]

/-- Chunks with consecutive numbers tile the nodes from the first one's to the last one's. -/
theorem tile_placeNumber (hd : g.coldBegin ≤ d) (ha : g.Aligned d) (count : Nat) :
    ∀ first, g.firstNumber d ≤ first → Placement.Tile (g.firstNode first)
      (g.firstNode (first + count)) ((List.range' first count).map g.placeNumber) := by
  induction count with
  | zero =>
    intro first _
    rfl
  | succ count ih =>
    intro first hfirst
    obtain ⟨_, _, hstart, hcapacity⟩ := place_firstNode hw hc first
    have hrest := ih (first + 1) (Nat.le_succ_of_le hfirst)
    rw [firstNode_succ_of_aligned hw hc hd ha hfirst, Nat.add_right_comm] at hrest
    rw [List.range'_succ, List.map_cons]
    refine ⟨hstart, ?_⟩
    unfold placeNumber
    rwa [hcapacity]

/-- The number of a node at an aligned depth is one of those the depth fills. -/
theorem number_lt_of_aligned {i : Nat} (hi : g.coldIndexBegin ≤ i)
    (ha : g.Aligned (g.depthOf i)) :
    (g.place i).number < g.firstNumber (g.depthOf i) + g.chunkCount (g.depthOf i) := by
  have hd := levelStart_le_iff.1 hi
  have hnode := (firstNode_number_iff hw hc hi).2 (not_inTornChunk_of_aligned hw hc hi ha)
  have hstop := firstNode_firstNumber_add_chunkCount hw hc hd ha
  have hlt : i < g.levelStart (g.depthOf i + 1) := lt_levelStart_iff.2 (Nat.lt_succ_self _)
  have hle := chunkStart_le hi
  by_contra hcon
  have hpast := firstNode_le_firstNode hw hc (Nat.le_of_not_lt hcon)
  omega

theorem coversDepth_of_aligned (hd : g.coldBegin ≤ d) (ha : g.Aligned d) (hr : g.Reaches d) :
    g.CoversDepth d (g.firstNumber d) (g.depthChunks d) := by
  constructor
  · rw [length_depthChunks]
    exact chunkCount_pos hw hc hd ha
  · intro k p hp
    obtain ⟨hk, rfl⟩ := getElem?_depthChunks.1 hp
    obtain ⟨hnumber, hoffset, _⟩ := place_firstNode hw hc (g.firstNumber d + k)
    exact ⟨depthOf_firstNode_of_aligned hw hc hd ha hk, hoffset, hnumber⟩
  · rw [← firstNode_firstNumber hw hc hd ha, ← firstNode_firstNumber_add_chunkCount hw hc hd ha]
    exact tile_placeNumber hw hc hd ha _ _ (Nat.le_refl _)
  · rintro i rfl
    have hi : g.coldIndexBegin ≤ i := levelStart_le_iff.2 hd
    have hle : g.firstNumber (g.depthOf i) ≤ (g.place i).number :=
      number_le_number (g.levelStart_depthOf_le i) (g.depthOf_levelStart _)
    have hlt := number_lt_of_aligned hw hc hi ha
    have hsum := Nat.add_sub_cancel' hle
    have hnode := (firstNode_number_iff hw hc hi).2 (not_inTornChunk_of_aligned hw hc hi ha)
    refine ⟨_, locate_of_reaches hw hc hi hr,
      (g.place i).number - g.firstNumber (g.depthOf i), ?_, ?_⟩
    · obtain ⟨hnumber, _, hstart, _⟩ := place_firstNode hw hc (g.place i).number
      refine ⟨_, getElem?_depthChunks.2 ⟨by omega, rfl⟩, ?_⟩
      rw [hsum]
      exact ⟨hnumber, hstart.trans hnode⟩
    · rintro k ⟨q, hq, hsame, _⟩
      obtain ⟨_, rfl⟩ := getElem?_depthChunks.1 hq
      have hnumber := (place_firstNode hw hc (g.firstNumber (g.depthOf i) + k)).1
      rw [placeNumber, hnumber] at hsame
      omega

end

end Geometry

open ChunkedTree.Geometry

variable {c : Config} {g : Geometry} {d : Nat} {chunks : ChunkWalk}

/-- **A walk covers its depth exactly once.** For a built tree, and the seam within reach if it is
    dynamic: a walk that is accepted takes as many chunks as the depth's count, at least one,
    numbered from the depth's first number on; they tile the depth, and the chunk of each node at
    the depth is among them once; and the numbers of the next depth continue right after. -/
theorem walk_covers_depth (hb : c.build = .ok g)
    (hs : g.dynamic = true → g.Reaches (g.sparseBegin + 1)) (hwalk : g.walk d = .ok chunks) :
    ∃ first ps, g.firstNumber? d = .ok first ∧ g.chunkCount? d = .ok ps.length ∧
      chunks.toList = .ok ps ∧ (∀ m, chunks.take m = .ok (ps.take m)) ∧
      g.CoversDepth d first ps ∧ g.firstNumber? (d + 1) = .ok (first + ps.length) := by
  have hw := Config.wellFormed_of_build hb
  obtain ⟨hc, hd, hr, ha, rfl⟩ := (walk_eq_ok_iff hw).1 hwalk
  have hr' := hr.of_le (Nat.le_succ d)
  have hlength := g.length_depthChunks d
  refine ⟨_, g.depthChunks d, (firstNumber?_eq_ok_iff hw hc hd).2 ⟨hr', rfl⟩, ?_,
    toList_of_aligned hw hc hd ha hr' hs, take_of_aligned hw hc hd ha hr' hs,
    coversDepth_of_aligned hw hc hd ha hr', ?_⟩
  · rw [hlength]
    exact chunkCount?_of_reaches hw hc hr
  · rw [hlength, firstNumber?_eq_ok_iff hw hc (Nat.le_succ_of_le hd)]
    exact ⟨hr, firstNumber_succ hw hc hd ha⟩

/-- Depth 7 of a tree whose chunks above it are torn: four chunks, numbered from 5 on. -/
theorem tornQuadtree_walk_covers_depth :
    Config.tornQuadtree.build = .ok tornQuadtree ∧ tornQuadtree.Reaches 7 ∧
      tornQuadtree.walk 7 = .ok ⟨tornQuadtree, 5, 9⟩ ∧
      ∃ ps, ps.length = 4 ∧ ChunkWalk.toList ⟨tornQuadtree, 5, 9⟩ = .ok ps ∧
        tornQuadtree.CoversDepth 7 5 ps ∧ tornQuadtree.firstNumber? 8 = .ok 9 := by
  have hr : tornQuadtree.Reaches 7 := by decide
  have hwalk : tornQuadtree.walk 7 = .ok ⟨tornQuadtree, 5, 9⟩ := rfl
  obtain ⟨first, ps, hfirst, hcount, hlist, _, hcovers, hnext⟩ :=
    walk_covers_depth tornQuadtree_build (fun _ => hr) hwalk
  have hfirst' : tornQuadtree.firstNumber? 7 = .ok 5 := rfl
  have hcount' : tornQuadtree.chunkCount? 7 = .ok 4 := rfl
  obtain rfl := Except.ok.inj (hfirst'.symm.trans hfirst)
  have hlength := Except.ok.inj (hcount.symm.trans hcount')
  rw [hlength] at hnext
  exact ⟨tornQuadtree_build, hr, hwalk, ps, hlength, hlist, hcovers, hnext⟩

end ChunkedTree
