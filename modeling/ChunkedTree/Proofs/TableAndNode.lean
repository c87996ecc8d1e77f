/-
  The table and what is said about a node agree.

  The table has a row for each chunked depth, which tells the numbers of its chunks from the first
  node and the last one. What is said about one node comes from placing that node alone. All nodes
  of a depth are placed in one run of chunks, with numbers that grow from node to node, so what is
  said lies in the row of the node's depth (`liesIn_layoutRow`).

  Neither can fault. The rows need no depth past the end of the chunked range, which a built tree
  reaches. A node needs its own depth only, and the index that an argument spells has less than four
  bits for each of its characters (`Spells.log2_lt`).

  What is stated of a run is stated of the text that it prints, as this is read back
  (`rowsIn_tableText`, `read_tableText`), and of the arguments as they stand in their list
  (`valueOf?_eq_some_iff`).
-/
import ChunkedTree.CommandLine
import ChunkedTree.Proofs.ChunkMembership
import ChunkedTree.Proofs.Classification
import ChunkedTree.Proofs.NumbersInUse
import ChunkedTree.Proofs.ParameterDocument
import ChunkedTree.Proofs.PrintedTable
import ChunkedTree.Proofs.Readers

namespace ChunkedTree

/-- The placement lies in the chunks that the row counts. -/
structure Placement.LiesIn (p : Placement) (row : LayoutRow) : Prop where
  depth_eq : p.depth = row.depth
  capacity_eq : p.capacity = row.capacity
  firstNumber_le : row.firstNumber ≤ p.number
  number_lt : p.number < row.firstNumber + row.count

namespace Geometry

variable {g : Geometry} {d i : Nat}

/-! ## The rows of the chunked depths -/

/-- The rows of all chunked depths. -/
def chunkedRows (g : Geometry) : List LayoutRow :=
  (List.range' g.coldBegin (g.coldEnd - g.coldBegin)).map g.layoutRow

theorem layout?_eq_chunkedRows (hw : g.WellFormed) (hc : g.hasCold = true) :
    g.layout? 0 g.coldEnd = .ok g.chunkedRows := by
  rw [layout?_of_reaches hw hc hw.reaches_coldEnd, Nat.zero_max]
  rfl

theorem map_depth_chunkedRows (g : Geometry) :
    g.chunkedRows.map (·.depth) = List.range' g.coldBegin (g.coldEnd - g.coldBegin) := by
  unfold chunkedRows
  rw [List.map_map]
  exact List.map_id _

theorem layoutRow_mem_chunkedRows (hd : g.coldBegin ≤ d) (hend : d < g.coldEnd) :
    g.layoutRow d ∈ g.chunkedRows :=
  List.mem_map_of_mem (List.mem_range'_1.2 ⟨hd, by omega⟩)

theorem liesIn_layoutRow (g : Geometry) (i : Nat) :
    (g.place i).LiesIn (g.layoutRow (g.depthOf i)) := by
  obtain ⟨hfirst, hlast⟩ := number_mem_range (g := g) (i := i) rfl
  constructor
  case depth_eq => rfl
  case capacity_eq => rfl
  case firstNumber_le => exact hfirst
  case number_lt =>
    show _ < g.firstNumber _ + (g.lastNumber _ + 1 - g.firstNumber _)
    omega

/-- A node before the chunked range lies in the null region or in the base region. -/
theorem nodeRegion_of_lt (hn : g.nullEnd ≤ g.baseEnd) (hi : i < g.coldIndexBegin) :
    g.nodeRegion i = .null ∧ g.isNullNode i = true ∨
      g.nodeRegion i = .base ∧ g.isBaseNode i = true := by
  by_cases hnull : i < g.nullIndexEnd
  · have htest : g.isNullNode i = true := decide_eq_true hnull
    exact Or.inl ⟨(isNullNode_iff hn).1 htest, htest⟩
  · have htest : g.isBaseNode i = true := by
      rw [isBaseNode, Bool.and_eq_true, decide_eq_true_iff, decide_eq_true_iff]
      exact ⟨Nat.le_of_not_lt hnull, hi⟩
    exact Or.inr ⟨(isBaseNode_iff hn).1 htest, htest⟩

end Geometry

namespace CommandLine

open ChunkedTree.Geometry

variable {g : Geometry} {args : List String} {flag arg path : String} {i n : Nat}

/-! ## Arguments -/

/-- The first `flag` among the arguments is followed by `arg`. -/
def Gives (args : List String) (flag arg : String) : Prop :=
  ∃ before after, flag ∉ before ∧ args = before ++ flag :: arg :: after

theorem valueOf?_eq_some_iff : valueOf? flag args = some arg ↔ Gives args flag arg := by
  unfold Gives
  induction args with
  | nil => simp [valueOf?]
  | cons a args ih =>
    rw [valueOf?]
    by_cases ha : a = flag
    · subst ha
      rw [if_pos (beq_self_eq_true a), List.head?_eq_some_iff]
      constructor
      · rintro ⟨after, rfl⟩
        exact ⟨[], after, List.not_mem_nil, rfl⟩
      · rintro ⟨before, after, hbefore, hargs⟩
        cases before with
        | nil => exact ⟨after, (List.cons.inj hargs).2⟩
        | cons b before =>
          obtain rfl := (List.cons.inj hargs).1
          exact absurd List.mem_cons_self hbefore
    · rw [if_neg (by simpa using ha), ih]
      constructor
      · rintro ⟨before, after, hbefore, rfl⟩
        exact ⟨a :: before, after, List.not_mem_cons_of_ne_of_not_mem (Ne.symm ha) hbefore, rfl⟩
      · rintro ⟨before, after, hbefore, hargs⟩
        cases before with
        | nil => exact absurd (List.cons.inj hargs).1 ha
        | cons b before =>
          exact ⟨before, after, List.not_mem_of_not_mem_cons hbefore, (List.cons.inj hargs).2⟩

theorem Gives.mem (h : Gives args flag arg) : arg ∈ args := by
  obtain ⟨before, after, -, rfl⟩ := h
  simp

/-- The arguments fit in memory: reading one as a number takes several copies of it, and a word has
    to address them all. -/
def Addressable (args : List String) : Prop := ∀ arg ∈ args, arg.length ≤ maxWord / 4

instance (args : List String) : Decidable (Addressable args) :=
  inferInstanceAs (Decidable (∀ arg ∈ args, _))

theorem Spells.log2_lt {gaps : List Char} (h : Spells gaps arg n) (hn : n ≠ 0) :
    n.log2 < 4 * arg.length := by
  rw [Nat.log2_lt hn, Nat.pow_mul]
  exact Nat.lt_of_lt_of_le h.lt (Nat.pow_le_pow_left (by decide) _)

theorem Addressable.reaches (h : Addressable args) (harg : arg ∈ args) (hi : SpellsIndex arg i) :
    g.Reaches (g.depthOf i) := by
  apply reaches_depthOf_of_log2
  have hmax : maxWord = 18446744073709551615 := rfl
  have hlength := h arg harg
  rcases Nat.eq_zero_or_pos i with rfl | hpos
  · decide
  · have hbits := Spells.log2_lt hi (Nat.ne_of_gt hpos)
    omega

/-! ## What is said about a node -/

/-- What is said about the node that `arg` names is so, and is what the row of its depth says. -/
def NodeAnswer.Agrees (g : Geometry) (rows : List LayoutRow) (arg : String) : NodeAnswer → Prop
  | .invalid told => (¬ ∃ i, SpellsIndex arg i) ∧ told = arg
  | .notChunked index region => SpellsIndex arg index ∧ index < g.coldIndexBegin ∧
    (region = .null ∧ g.isNullNode index = true ∨ region = .base ∧ g.isBaseNode index = true)
  | .located p => SpellsIndex arg p.index ∧ g.coldIndexBegin ≤ p.index ∧
    g.locate p.index = .ok p ∧ g.Encloses p.index p ∧
    (p.depth < g.coldEnd → ∃ row ∈ rows, p.LiesIn row)

theorem nodeAnswer_agrees (hw : g.WellFormed) (hc : g.hasCold = true) (hargs : Addressable args)
    (harg : arg ∈ args) : ∃ a, nodeAnswer g arg = .ok a ∧ a.Agrees g g.chunkedRows arg := by
  unfold nodeAnswer
  cases hindex : index? arg with
  | none =>
    refine ⟨.invalid arg, rfl, ?_, rfl⟩
    rintro ⟨i, hi⟩
    rw [index?_eq_some_iff.2 hi] at hindex
    cases hindex
  | some i =>
    have hspells := index?_eq_some_iff.1 hindex
    by_cases hi : i < g.coldIndexBegin
    · refine ⟨.notChunked i (g.nodeRegion i), ?_, hspells, hi, nodeRegion_of_lt hw.nullEnd_le hi⟩
      simp only [if_pos hi]
      rfl
    · have hcold := Nat.le_of_not_lt hi
      have hr := hargs.reaches (g := g) harg hspells
      have hlocate := locate_of_reaches hw hc hcold hr
      refine ⟨.located (g.place i), ?_, hspells, hcold, hlocate, encloses_place hw hc hcold hr, ?_⟩
      · simp only [if_neg hi, hlocate]
        rfl
      · intro hend
        exact ⟨_, layoutRow_mem_chunkedRows (levelStart_le_iff.1 hcold) hend, g.liesIn_layoutRow i⟩

/-! ## Runs -/

/-- The rows and what is said about a node are what is read in the text. -/
structure Prints (rows : List LayoutRow) (said : Option NodeAnswer) (text : String) : Prop where
  rows_eq : rowsIn text = rows
  told_eq : NodeText.read text = (said.map NodeAnswer.told).getD {}

/-- A run with `args` prints the table `rows` of the geometry, and `said` about a node. -/
structure Tabulates (args : List String) (path : String) (g : Geometry) (rows : List LayoutRow)
    (said : Option NodeAnswer) (answer : Answer) : Prop where
  answer_eq : answer = .table path g rows said
  prints : ∃ text, answer.output = unlines (headerLines path g) ++ text ∧ Prints rows said text
  /-- Only a path with a line break in it could print more. -/
  prints_only : OneLine path → Prints rows said answer.output
  /-- One row for each chunked depth, from the first one on. -/
  depths_eq : rows.map (·.depth) = List.range' g.coldBegin (g.coldEnd - g.coldBegin)
  exitCode_le : answer.exitCode ≤ 1
  fails_iff : answer.exitCode = 1 ↔ ∃ arg, Gives args "--index" arg ∧ ¬ ∃ i, SpellsIndex arg i
  says_iff : said.isSome = true ↔ ∃ arg, Gives args "--index" arg
  agrees : ∀ arg a, Gives args "--index" arg → said = some a → a.Agrees g rows arg

theorem prints_tableText (rows : List LayoutRow) (said : Option NodeAnswer) :
    Prints rows said (tableText rows said) :=
  ⟨rowsIn_tableText rows said, read_tableText rows said⟩

theorem prints_output {rows : List LayoutRow} {said : Option NodeAnswer} (hpath : OneLine path) :
    Prints rows said (Answer.table path g rows said).output :=
  ⟨rowsIn_output hpath, read_output hpath⟩

/-- A table fails exactly if what it says is that the argument names no node. -/
theorem NodeAnswer.Agrees.exitCode_eq_one_iff {rows : List LayoutRow} {a : NodeAnswer}
    (h : a.Agrees g rows arg) :
    (Answer.table path g rows (some a)).exitCode = 1 ↔ ¬ ∃ i, SpellsIndex arg i := by
  cases a with
  | invalid told => exact iff_of_true rfl h.1
  | notChunked index region => exact iff_of_false nofun (not_not_intro ⟨_, h.1⟩)
  | located p => exact iff_of_false nofun (not_not_intro ⟨_, h.1⟩)

theorem exitCode_table_le (rows : List LayoutRow) (said : Option NodeAnswer) :
    (Answer.table path g rows said).exitCode ≤ 1 := by
  cases said with
  | none => exact Nat.zero_le 1
  | some a => cases a <;> exact Nat.le_of_ble_eq_true rfl

/-- Every table is printed as it is; the rest is up to what is said about a node. -/
theorem tabulates_of_said {said : Option NodeAnswer}
    (hfails : (Answer.table path g g.chunkedRows said).exitCode = 1 ↔
      ∃ arg, Gives args "--index" arg ∧ ¬ ∃ i, SpellsIndex arg i)
    (hasked : said.isSome = true ↔ ∃ arg, Gives args "--index" arg)
    (hagrees : ∀ arg a, Gives args "--index" arg → said = some a → a.Agrees g g.chunkedRows arg) :
    Tabulates args path g g.chunkedRows said (.table path g g.chunkedRows said) where
  answer_eq := rfl
  prints := ⟨_, output_table, prints_tableText _ _⟩
  prints_only := prints_output
  depths_eq := g.map_depth_chunkedRows
  exitCode_le := exitCode_table_le _ _
  fails_iff := hfails
  says_iff := hasked
  agrees := hagrees

theorem tabulates_of_none (hnone : valueOf? "--index" args = none) :
    Tabulates args path g g.chunkedRows none (.table path g g.chunkedRows none) := by
  have hgives (arg : String) : ¬ Gives args "--index" arg := by
    rw [← valueOf?_eq_some_iff, hnone]
    exact nofun
  apply tabulates_of_said
  case hfails => exact iff_of_false nofun fun ⟨arg, hgiven, _⟩ => hgives arg hgiven
  case hasked => exact iff_of_false nofun fun ⟨arg, hgiven⟩ => hgives arg hgiven
  case hagrees => exact fun arg _ hgiven => absurd hgiven (hgives arg)

theorem tabulates_of_some {a : NodeAnswer} (hsome : valueOf? "--index" args = some arg)
    (ha : a.Agrees g g.chunkedRows arg) :
    Tabulates args path g g.chunkedRows (some a) (.table path g g.chunkedRows (some a)) := by
  have hgives (arg' : String) : Gives args "--index" arg' ↔ arg = arg' := by
    rw [← valueOf?_eq_some_iff, hsome, Option.some.injEq]
  apply tabulates_of_said
  case hfails =>
    rw [ha.exitCode_eq_one_iff]
    simp only [hgives, exists_eq_left']
  case hasked => exact iff_of_true rfl ⟨arg, (hgives arg).2 rfl⟩
  case hagrees =>
    intro arg' a' hgiven ha'
    obtain rfl := (hgives arg').1 hgiven
    obtain rfl := Option.some.inj ha'
    exact ha

theorem exists_build_of_ofFile {contents : Except IoError ByteArray}
    (h : Geometry.ofFile contents = .ok g) : ∃ c : Config, c.build = .ok g := by
  unfold Geometry.ofFile at h
  split at h
  · next c _ => exact ⟨c, mapError_eq_ok_iff.1 h⟩
  · cases h

theorem run_eq_table {readFile : String → Except IoError ByteArray} {said : Option NodeAnswer}
    (hpath : Gives args "--config" path) (hload : Geometry.ofFile (readFile path) = .ok g)
    (hw : g.WellFormed) (hc : g.hasCold = true)
    (hdepths : ∀ arg n, Gives args "--depths" arg → ¬ SpellsWord arg n)
    (hsaid : (valueOf? "--index" args).mapM (nodeAnswer g) = .ok said) :
    run args readFile = .table path g g.chunkedRows said := by
  have hend : tableEnd g args = g.coldEnd := by
    have hnone : (valueOf? "--depths" args).bind word? = none := by
      rw [Option.bind_eq_none_iff]
      intro arg harg
      rw [Option.eq_none_iff_forall_ne_some]
      intro n hn
      exact hdepths arg n (valueOf?_eq_some_iff.1 harg) (word?_eq_some_iff.1 hn)
    unfold tableEnd
    rw [hnone]
  unfold run describe
  simp only [valueOf?_eq_some_iff.2 hpath, hload, if_pos hc, hend, layout?_eq_chunkedRows hw hc,
    hsaid]

end CommandLine

open ChunkedTree.Geometry ChunkedTree.CommandLine

/-- **The table and the answer about a node agree.** Let the arguments name a document that is
    loaded and has chunked depths, and give no number of depths to print. Then the run prints a
    table with one row for each chunked depth, in their order, and fails exactly if what it is given
    for a node spells no index. Of a node before the chunked range it prints the null or the base
    region, whichever holds it. Of any other one it prints the chunk that encloses it, and at the
    depths of the table this is one of those that the printed row counts, of the capacity that the
    row tells. -/
theorem run_tabulates {args : List String} {path : String} {g : Geometry}
    {readFile : String → Except IoError ByteArray}
    (hpath : Gives args "--config" path) (hload : Geometry.ofFile (readFile path) = .ok g)
    (hc : g.hasCold = true) (hdepths : ∀ arg n, Gives args "--depths" arg → ¬ SpellsWord arg n)
    (hargs : Addressable args) :
    ∃ rows said, Tabulates args path g rows said (run args readFile) := by
  obtain ⟨c, hb⟩ := exists_build_of_ofFile hload
  have hw := Config.wellFormed_of_build hb
  cases hindex : valueOf? "--index" args with
  | none =>
    rw [run_eq_table hpath hload hw hc hdepths (by rw [hindex]; rfl)]
    exact ⟨_, _, tabulates_of_none hindex⟩
  | some arg =>
    have hgiven := valueOf?_eq_some_iff.1 hindex
    obtain ⟨a, ha, hagrees⟩ := nodeAnswer_agrees hw hc hargs hgiven.mem
    rw [run_eq_table hpath hload hw hc hdepths (by rw [hindex, Option.mapM_some, ha]; rfl)]
    exact ⟨_, _, tabulates_of_some hindex hagrees⟩

/-- A table, and the place of one node. -/
def CommandLine.askForNode : List String := ["--config", "tree.json", "--index", "1_400"]

/-- A file with the parameters of the quadtree, whatever its name. -/
def CommandLine.tornQuadtreeFile (_ : String) : Except IoError ByteArray :=
  .ok Config.tornQuadtree.compact.toUTF8

/-- Node 1400 lies at depth 6, in the first of the five chunks that the row of this depth counts. -/
theorem tornQuadtree_run_tabulates :
    Gives askForNode "--config" "tree.json" ∧
      Geometry.ofFile (tornQuadtreeFile "tree.json") = .ok tornQuadtree ∧
      tornQuadtree.hasCold = true ∧
      (∀ arg n, Gives askForNode "--depths" arg → ¬ SpellsWord arg n) ∧ Addressable askForNode ∧
      ∃ rows p row, Tabulates askForNode "tree.json" tornQuadtree rows (some (.located p))
          (run askForNode tornQuadtreeFile) ∧
        p = ⟨1400, 6, 1365, 1109, 291, 1024, 1⟩ ∧ row ∈ rows ∧ p.LiesIn row ∧
        NodeText.read (run askForNode tornQuadtreeFile).output =
          { indexes := [1400], depths := [6], chunkIds := [1109], chunkNumbers := [1],
            offsets := [291], chunkSizes := [1024] } := by
  have hpath : Gives askForNode "--config" "tree.json" := valueOf?_eq_some_iff.1 rfl
  have hload : Geometry.ofFile (tornQuadtreeFile "tree.json") = .ok tornQuadtree := by
    unfold tornQuadtreeFile
    rw [ofFile_of_read? (Config.read?_compact _), tornQuadtree_build]
    rfl
  have hdepths : ∀ arg n, Gives askForNode "--depths" arg → ¬ SpellsWord arg n :=
    fun _ _ hgiven => nomatch valueOf?_eq_some_iff.2 hgiven
  have hargs : Addressable askForNode := by decide
  obtain ⟨rows, said, htable⟩ := run_tabulates hpath hload rfl hdepths hargs
  have hgiven : Gives askForNode "--index" "1_400" := valueOf?_eq_some_iff.1 rfl
  obtain ⟨a, rfl⟩ := Option.isSome_iff_exists.1 (htable.says_iff.2 ⟨_, hgiven⟩)
  have hagrees := htable.agrees "1_400" a hgiven rfl
  have hindex : index? "1_400" = some 1400 := by cbv
  have hspells {i : Nat} (h : SpellsIndex "1_400" i) : 1400 = i :=
    Option.some.inj (hindex.symm.trans (index?_eq_some_iff.2 h))
  cases a with
  | invalid told => exact absurd ⟨1400, index?_eq_some_iff.1 hindex⟩ hagrees.1
  | notChunked index region =>
    obtain rfl := hspells hagrees.1
    exact absurd hagrees.2.1 (by decide)
  | located p =>
    obtain ⟨hnamed, _, hlocate, _, hrow⟩ := hagrees
    rw [← hspells hnamed] at hlocate
    have hp : tornQuadtree.locate 1400 = .ok ⟨1400, 6, 1365, 1109, 291, 1024, 1⟩ := rfl
    obtain rfl := Except.ok.inj (hp.symm.trans hlocate)
    obtain ⟨row, hmem, hlies⟩ := hrow (by decide)
    have htold := (htable.prints_only (by decide)).told_eq
    exact ⟨hpath, hload, rfl, hdepths, hargs, rows, _, row, htable, rfl, hmem, hlies, htold⟩

end ChunkedTree
