/-
  Work on all chunks of a depth, done by workers that come to them in any order.

  A walk goes from chunk to chunk until it has passed its last number. Work is handed out before it
  starts: the chunks are counted, the count has to fit a word, and each of them is looked up by its
  own number, in whatever order (`Schedule`). What is refused to a walk is refused to work for the
  same reason (`checkWalkable_of_walk_error`), and the count is the one reason that work has of its
  own (`workRange_eq_ite`). Else both come to the same chunks (`depthChunks`): a walk one after the
  other, work that maps them in this order too (`mapChunks_eq_ok`), and work that visits them in the
  order of the schedule (`visitChunks_eq_ok`).

  That the visits cover the depth comes from the walk, whose chunks tile it. The capacities of
  chunks that tile a range of nodes add up to its length, by induction on the chunks
  (`Placement.Tile.add_sum_capacity`), and a sum does not depend on the order.
-/
import ChunkedTree.Proofs.DepthWalk

namespace ChunkedTree

/-- From the last number to the first one. -/
def Schedule.descending : Schedule := ⟨List.reverse, List.reverse_perm⟩

/-- Chunks that cover a range of nodes hold as many nodes as there are in it. -/
theorem Placement.Tile.add_sum_capacity {stop : Nat} {ps : List Placement} :
    ∀ {start : Nat}, Placement.Tile start stop ps → start + (ps.map (·.capacity)).sum = stop := by
  induction ps with
  | nil =>
    intro start h
    exact h
  | cons p ps ih =>
    intro start h
    rw [List.map_cons, List.sum_cons, ← Nat.add_assoc]
    exact ih h.2

namespace Geometry

variable {g : Geometry} {d : Nat} {cause : Failure WalkError}

/-! ## Refusals -/

/-- Work on all chunks of `depth` is not done, because of `cause`. -/
structure WorkFails (g : Geometry) (depth : Nat) (cause : Failure WalkError) : Prop where
  mapped : ∀ {α : Type} (f : Placement → α), g.mapChunks depth f = .error cause
  visited : ∀ {σ : Type} (visit : σ → Placement → σ) (start : σ) (schedule : Schedule),
    g.visitChunks depth visit start schedule = .error cause

theorem workFails_of_workRange (h : g.workRange d = .error cause) : g.WorkFails d cause := by
  constructor
  case mapped =>
    intro α f
    unfold mapChunks
    rw [h]
    rfl
  case visited =>
    intro σ visit start schedule
    unfold visitChunks
    rw [h]
    rfl

/-- The check that a walk makes is made before any work. -/
theorem workRange_of_checkWalkable_error (h : g.checkWalkable d = .error cause) :
    g.workRange d = .error cause := by
  unfold workRange
  rw [h]
  rfl

section

variable (hw : g.WellFormed) (hr : g.Reaches (d + 1))
include hw hr

/-- With the next depth within reach, the check of a walk passes or names a reason. -/
theorem checkWalkable_eq_ok_or : g.checkWalkable d = .ok () ∨
    ∃ reason, g.checkWalkable d = .error (.refused reason) := by
  rw [checkWalkable_eq_ite hw hr]
  split_ifs
  · exact Or.inr ⟨_, rfl⟩
  · exact Or.inl rfl
  · exact Or.inr ⟨_, rfl⟩
  · exact Or.inr ⟨_, rfl⟩

/-- A walk that passes the check is accepted, so one that is refused has failed it. -/
theorem checkWalkable_of_walk_error (h : g.walk d = .error cause) :
    (∃ reason, cause = .refused reason) ∧ g.checkWalkable d = .error cause := by
  rcases checkWalkable_eq_ok_or hw hr with hcheck | ⟨reason, hcheck⟩
  · obtain ⟨hc, hd, ha⟩ := checkWalkable_eq_ok_iff.1 hcheck
    obtain ⟨_, ha⟩ := (isAligned?_eq_true_iff hw hc hd).1 ha
    have haccepted := (walk_eq_ok_iff hw).2 ⟨hc, hd, hr, ha, rfl⟩
    rw [haccepted] at h
    cases h
  · obtain rfl := Except.error.inj ((walk_of_checkWalkable_error hcheck).symm.trans h)
    exact ⟨⟨reason, rfl⟩, hcheck⟩

end

/-! ## The chunks that are worked on -/

section

variable (hw : g.WellFormed) (hc : g.hasCold = true) (hd : g.coldBegin ≤ d) (ha : g.Aligned d)
include hw hc

/-- No chunk is taken twice: they differ in their numbers. -/
theorem nodup_number_depthChunks : ((g.depthChunks d).map (·.number)).Nodup := by
  have hnumbers : (g.depthChunks d).map (·.number) =
      List.range' (g.firstNumber d) (g.chunkCount d) := by
    rw [depthChunks, List.map_map]
    exact (List.map_congr_left (fun n _ => (place_firstNode hw hc n).1)).trans (List.map_id _)
  rw [hnumbers]
  exact List.nodup_range'

include hd ha

theorem sum_capacity_depthChunks :
    ((g.depthChunks d).map (·.capacity)).sum = Level.size g.dimensions d := by
  have htile := tile_placeNumber hw hc hd ha (g.chunkCount d) (g.firstNumber d) (Nat.le_refl _)
  have hsum := htile.add_sum_capacity
  rw [firstNode_firstNumber hw hc hd ha, firstNode_firstNumber_add_chunkCount hw hc hd ha,
    levelStart_succ] at hsum
  exact Nat.add_left_cancel hsum

variable (hr : g.Reaches (d + 1))
include hr

/-- A depth that can be walked can be worked on exactly if its chunk count fits a word. -/
theorem workRange_eq_ite : g.workRange d =
    if g.chunkCount d ≤ maxWord then .ok (g.firstNumber d, g.chunkCount d)
    else .error (.refused (.tooMany (g.chunkCount d) d)) := by
  have hcheck : g.checkWalkable d = .ok () :=
    checkWalkable_eq_ok_iff.2 ⟨hc, hd, (isAligned?_eq_true_iff hw hc hd).2 ⟨hr, ha⟩⟩
  have hfirst : g.firstNumber? d = .ok (g.firstNumber d) :=
    (firstNumber?_eq_ok_iff hw hc hd).2 ⟨hr.of_le (Nat.le_succ d), rfl⟩
  unfold workRange
  rw [hcheck, ok_bind, chunkCount?_of_reaches hw hc hr]
  by_cases hle : g.chunkCount d ≤ maxWord
  · rw [if_pos hle, hfirst]
    simp only [Checked.orFault, ok_bind, decide_eq_true hle, Failure.unless, if_true]
    rfl
  · rw [if_neg hle]
    simp only [Checked.orFault, ok_bind, decide_eq_false hle, Failure.unless]
    rfl

variable (hs : g.dynamic = true → g.Reaches (g.sparseBegin + 1)) (hle : g.chunkCount d ≤ maxWord)
include hs hle

omit hle in
theorem locateNumber_of_mem {n : Nat}
    (hn : n ∈ List.range' (g.firstNumber d) (g.chunkCount d)) :
    g.locateNumber n = .ok (g.placeNumber n) := by
  obtain ⟨hfirst, hlt⟩ := List.mem_range'_1.1 hn
  exact locateNumber_of_lt hw hc hd ha (hr.of_le (Nat.le_succ d)) hs n hfirst hlt

theorem mapChunks_eq_ok {α : Type} (f : Placement → α) :
    g.mapChunks d f = .ok ((g.depthChunks d).map f) := by
  have hchunks := mapM_eq_ok (fun n hn => locateNumber_of_mem hw hc hd ha hr hs (n := n) hn)
  unfold mapChunks
  rw [workRange_eq_ite hw hc hd ha hr, if_pos hle, ok_bind]
  dsimp only
  rw [hchunks]
  rfl

theorem visitChunks_eq_ok {σ : Type} (visit : σ → Placement → σ) (start : σ)
    (schedule : Schedule) : g.visitChunks d visit start schedule =
      .ok (((schedule.order (List.range' (g.firstNumber d) (g.chunkCount d))).map
        g.placeNumber).foldl visit start) := by
  have hstep (n : Nat)
      (hn : n ∈ schedule.order (List.range' (g.firstNumber d) (g.chunkCount d))) (s : σ) :
      (g.locateNumber n >>= fun p => pure (visit s p)) = .ok (visit s (g.placeNumber n)) := by
    rw [locateNumber_of_mem hw hc hd ha hr hs ((schedule.perm _).mem_iff.1 hn)]
    rfl
  unfold visitChunks
  rw [workRange_eq_ite hw hc hd ha hr, if_pos hle, ok_bind]
  dsimp only
  rw [foldlM_eq_ok hstep, List.foldl_map]
  rfl

end

/-! ## Work and walks -/

/-- Work on all chunks of `depth` is done on `chunks`. -/
structure WorksOn (g : Geometry) (depth : Nat) (chunks : List Placement) : Prop where
  /-- What maps them keeps their order. -/
  mapped : ∀ {α : Type} (f : Placement → α), g.mapChunks depth f = .ok (chunks.map f)
  /-- Every schedule has an order in which each chunk is visited once. -/
  visited : ∀ schedule : Schedule, ∃ visits : List Placement, visits.Perm chunks ∧
    Level.size? g.dimensions depth = .ok (visits.map (·.capacity)).sum ∧
    ∀ {σ : Type} (visit : σ → Placement → σ) (start : σ),
      g.visitChunks depth visit start schedule = .ok (visits.foldl visit start)
  /-- No two of them are the same chunk. -/
  nodup : (chunks.map (·.number)).Nodup

/-- A walk of `depth` is accepted, and as many chunks as it takes can be handed out. -/
def Workable (g : Geometry) (depth : Nat) : Prop :=
  (∃ chunks, g.walk depth = .ok chunks) ∧
    ∃ count, g.chunkCount? depth = .ok count ∧ count ≤ maxWord

section

variable (hw : g.WellFormed) (hr : g.Reaches (d + 1))
include hw hr

theorem workFails_of_walk_error (h : g.walk d = .error cause) :
    (∃ reason, cause = .refused reason) ∧ g.WorkFails d cause := by
  obtain ⟨hreason, hcheck⟩ := checkWalkable_of_walk_error hw hr h
  exact ⟨hreason, workFails_of_workRange (workRange_of_checkWalkable_error hcheck)⟩

variable (hc : g.hasCold = true) (hd : g.coldBegin ≤ d) (ha : g.Aligned d)
include hc hd ha

theorem workFails_of_lt (hlt : maxWord < g.chunkCount d) :
    g.WorkFails d (.refused (.tooMany (g.chunkCount d) d)) := by
  apply workFails_of_workRange
  rw [workRange_eq_ite hw hc hd ha hr, if_neg (Nat.not_le_of_lt hlt)]

variable (hs : g.dynamic = true → g.Reaches (g.sparseBegin + 1))
include hs

theorem worksOn_depthChunks (hle : g.chunkCount d ≤ maxWord) :
    g.WorksOn d (g.depthChunks d) := by
  constructor
  case mapped => exact mapChunks_eq_ok hw hc hd ha hr hs hle
  case visited =>
    intro schedule
    have hperm := (schedule.perm (List.range' (g.firstNumber d) (g.chunkCount d))).map g.placeNumber
    refine ⟨_, hperm, ?_, fun visit start => visitChunks_eq_ok hw hc hd ha hr hs hle visit start _⟩
    rw [(hperm.map _).sum_eq]
    exact Level.size?_eq_ok_iff.2
      ⟨hr.of_le (Nat.le_succ d), (sum_capacity_depthChunks hw hc hd ha).symm⟩
  case nodup => exact nodup_number_depthChunks hw hc

omit hc hd ha in
/-- Work is done if it can be, and else it fails. -/
theorem worksOn_or_workFails : (g.Workable d ∧ ∃ ps, g.WorksOn d ps) ∨
    (¬ g.Workable d ∧ ∃ cause, g.WorkFails d cause) := by
  cases hwalk : g.walk d with
  | error cause =>
    refine Or.inr ⟨?_, cause, (workFails_of_walk_error hw hr hwalk).2⟩
    rintro ⟨⟨chunks, hchunks⟩, _⟩
    rw [hwalk] at hchunks
    cases hchunks
  | ok chunks =>
    obtain ⟨hc, hd, _, ha, _⟩ := (walk_eq_ok_iff hw).1 hwalk
    have hcount := chunkCount?_of_reaches hw hc hr
    rcases Nat.lt_or_ge maxWord (g.chunkCount d) with hlt | hle
    · refine Or.inr ⟨?_, _, workFails_of_lt hw hr hc hd ha hlt⟩
      rintro ⟨_, count, hcount', hle⟩
      obtain rfl := Except.ok.inj (hcount.symm.trans hcount')
      exact Nat.not_lt_of_le hle hlt
    · exact Or.inl ⟨⟨⟨chunks, hwalk⟩, _, hcount, hle⟩, _,
        worksOn_depthChunks hw hr hc hd ha hs hle⟩

end

end Geometry

open ChunkedTree.Geometry

variable {c : Config} {g : Geometry} {d : Nat}

/-- **Work on all chunks of a depth.** For a built tree, and with the next depth and the one after
    the sparse depth within reach: work is done exactly if the depth can be walked and its chunk
    count fits a word. It is done on the chunks that the walk takes, in whatever order. If the walk
    is not accepted it names a reason, and work fails with the same; and if the chunks that it takes
    are too many for a word, work fails with their count. -/
theorem work_follows_walk (hb : c.build = .ok g) (hr : g.Reaches (max d g.sparseBegin + 1)) :
    (∀ {α σ : Type} (f : Placement → α) (visit : σ → Placement → σ) (start : σ)
      (schedule : Schedule), ((∃ l, g.mapChunks d f = .ok l) ↔ g.Workable d) ∧
        ((∃ s, g.visitChunks d visit start schedule = .ok s) ↔ g.Workable d)) ∧
    (∀ chunks, g.walk d = .ok chunks → ∃ ps, chunks.toList = .ok ps ∧
      (∀ m, chunks.take m = .ok (ps.take m)) ∧ g.chunkCount? d = .ok ps.length ∧
      (ps.length ≤ maxWord → g.WorksOn d ps) ∧
      (maxWord < ps.length → g.WorkFails d (.refused (.tooMany ps.length d)))) ∧
    ∀ cause, g.walk d = .error cause →
      (∃ reason, cause = .refused reason) ∧ g.WorkFails d cause := by
  have hw := Config.wellFormed_of_build hb
  have hr' : g.Reaches (d + 1) := hr.of_le (Nat.succ_le_succ (Nat.le_max_left _ _))
  have hs : g.dynamic = true → g.Reaches (g.sparseBegin + 1) :=
    fun _ => hr.of_le (Nat.succ_le_succ (Nat.le_max_right _ _))
  refine ⟨?_, ?_, fun cause hwalk => workFails_of_walk_error hw hr' hwalk⟩
  · intro α σ f visit start schedule
    rcases worksOn_or_workFails hw hr' hs with ⟨hworkable, ps, hworks⟩ | ⟨hnot, cause, hfails⟩
    · obtain ⟨visits, _, _, hvisits⟩ := hworks.visited schedule
      exact ⟨iff_of_true ⟨_, hworks.mapped f⟩ hworkable,
        iff_of_true ⟨_, hvisits visit start⟩ hworkable⟩
    · rw [hfails.mapped f, hfails.visited visit start schedule]
      exact ⟨iff_of_false nofun hnot, iff_of_false nofun hnot⟩
  · intro chunks hwalk
    obtain ⟨hc, hd, _, ha, rfl⟩ := (walk_eq_ok_iff hw (d := d)).1 hwalk
    have hreach := hr'.of_le (Nat.le_succ d)
    have hlength := g.length_depthChunks d
    refine ⟨g.depthChunks d, toList_of_aligned hw hc hd ha hreach hs,
      take_of_aligned hw hc hd ha hreach hs, ?_, ?_, ?_⟩
    · rw [hlength]
      exact chunkCount?_of_reaches hw hc hr'
    · rw [hlength]
      exact worksOn_depthChunks hw hr' hc hd ha hs
    · rw [hlength]
      exact workFails_of_lt hw hr' hc hd ha

/-- Depth 7 has the chunks 5 to 8, which workers may come to from the last one to the first; depth 6
    shares chunks, so that neither a walk nor any work takes them. -/
theorem tornQuadtree_work_follows_walk :
    Config.tornQuadtree.build = .ok tornQuadtree ∧ tornQuadtree.Reaches 8 ∧
      tornQuadtree.Workable 7 ∧ tornQuadtree.mapChunks 7 (·.number) = .ok [5, 6, 7, 8] ∧
      tornQuadtree.visitChunks 7 (fun seen p => seen ++ [p.number]) [] .descending =
        .ok [8, 7, 6, 5] ∧
      tornQuadtree.walk 6 = .error (.refused (.shared 6)) ∧
      tornQuadtree.WorkFails 6 (.refused (.shared 6)) := by
  have hr : tornQuadtree.Reaches 8 := by decide
  obtain ⟨hdone, _, _⟩ := work_follows_walk (d := 7) tornQuadtree_build hr
  have hvisits : tornQuadtree.visitChunks 7 (fun seen p => seen ++ [p.number]) [] .descending =
      .ok [8, 7, 6, 5] := rfl
  have hworkable := (hdone (·.number) _ _ _).2.1 ⟨_, hvisits⟩
  obtain ⟨_, _, hrefused⟩ :=
    work_follows_walk (d := 6) tornQuadtree_build (hr.of_le (by decide))
  have hwalk : tornQuadtree.walk 6 = .error (.refused (.shared 6)) := rfl
  exact ⟨tornQuadtree_build, hr, hworkable, rfl, hvisits, hwalk, (hrefused _ hwalk).2⟩

end ChunkedTree
