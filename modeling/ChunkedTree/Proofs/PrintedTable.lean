/-
  The printed table, read back.

  A line of five or six words, the first of which is a number, is a row of the table (`row?`). What
  is said about a node is told by labelled numbers, or by a line that names its region (`region?`).

  A table is read back as the rows and the answer that it was printed from, each line once and none
  as anything else (`rowsIn_tableText`, `read_tableText`). Nothing is read of the header before it
  (`filterMap_wordLines_output`), unless the path that stands there breaks the line.
-/
import ChunkedTree.Proofs.PrintedText

namespace ChunkedTree.CommandLine

/-! ## Reading a table -/

/-- The region with the given name. -/
def regionNamed? : String → Option Region
  | "Null" => some .null
  | "Base" => some .base
  | "Cold" => some .cold
  | "Sparse" => some .sparse
  | "OutOfRange" => some .outOfRange
  | _ => none

/-- The last column of a row, which is empty unless chunks are shared. -/
def shared? : List String → Option Bool
  | [] => some false
  | ["yes"] => some true
  | _ => none

/-- A row of the table. -/
def row? : List String → Option LayoutRow
  | depth :: region :: first :: count :: capacity :: rest => do
    return { depth := ← number? depth, region := ← regionNamed? region,
             firstNumber := ← number? first, count := ← number? count,
             capacity := ← number? capacity, shared := ← shared? rest }
  | _ => none

/-- A node that has no chunk, and the region that it is told to lie in. -/
def region? : List String → Option (Nat × Region)
  | ["Index", index, "is", "in", "the", region, "region", "(not", "chunked)"] => do
    return (← number? index, ← regionNamed? region)
  | _ => none

/-- The rows that stand in a text. -/
def rowsIn (text : String) : List LayoutRow := (wordLines text).filterMap row?

/-- What is told about nodes, for each label in the order of its lines. -/
structure NodeText where
  regions : List (Nat × Region) := []
  indexes : List Nat := []
  depths : List Nat := []
  chunkIds : List Nat := []
  chunkNumbers : List Nat := []
  offsets : List Nat := []
  chunkSizes : List Nat := []
deriving DecidableEq, Repr

/-- What lines of words tell about nodes. -/
def NodeText.ofLines (lines : List (List String)) : NodeText where
  regions := lines.filterMap region?
  indexes := lines.filterMap (value? ["Index"])
  depths := lines.filterMap (value? ["depth"])
  chunkIds := lines.filterMap (value? ["chunk", "id"])
  chunkNumbers := lines.filterMap (value? ["chunk", "num"])
  offsets := lines.filterMap (value? ["offset"])
  chunkSizes := lines.filterMap (value? ["chunk", "size"])

/-- What a text tells about nodes. -/
def NodeText.read (text : String) : NodeText := ofLines (wordLines text)

/-- What an answer tells: nothing if there is no node, else its region or its place. -/
def NodeAnswer.told : NodeAnswer → NodeText
  | .invalid _ => {}
  | .notChunked index region => { regions := [(index, region)] }
  | .located p =>
    { indexes := [p.index], depths := [p.depth], chunkIds := [p.chunkStart],
      chunkNumbers := [p.number], offsets := [p.offset], chunkSizes := [p.capacity] }

/-! ## Rows -/

theorem isWord_name (region : Region) : IsWord region.name := by
  cases region <;> decide

theorem words_name (region : Region) : words region.name.toList = [region.name] :=
  words_of_isWord (isWord_name region)

theorem regionNamed?_name (region : Region) : regionNamed? region.name = some region := by
  cases region <;> decide

theorem oneLine_name (region : Region) : OneLine region.name := by
  cases region <;> decide

/-- The words of the title. -/
def titleWords : List String := ["depth", "region", "first", "chunks", "points/chunk", "shared"]

/-- The words of a row. -/
def rowWords (row : LayoutRow) : List String :=
  [toString row.depth, row.region.name, toString row.firstNumber, toString row.count,
    toString row.capacity] ++ if row.shared then ["yes"] else []

theorem words_rowLine (row : LayoutRow) : words (rowLine row).toList = rowWords row := by
  unfold rowLine rowWords
  rw [words_tableLine]
  simp only [words_toString, words_name]
  cases row.shared <;> rfl

theorem row?_rowWords (row : LayoutRow) : row? (rowWords row) = some row := by
  have hshared : shared? (if row.shared then ["yes"] else []) = some row.shared := by
    cases row.shared <;> rfl
  unfold rowWords row?
  simp only [List.cons_append, List.nil_append, number?_toString, regionNamed?_name, hshared,
    Option.bind_eq_bind, Option.bind_some, Option.pure_def]

theorem oneLine_rowLine (row : LayoutRow) : OneLine (rowLine row) := by
  have hshared : OneLine (if row.shared then "yes" else "") := by
    cases row.shared <;> decide
  unfold rowLine tableLine
  apply oneLine_intercalate
  simp only [List.forall_mem_cons, List.not_mem_nil, false_implies, implies_true, and_true]
  exact ⟨oneLine_alignRight (oneLine_toString _) _, oneLine_alignLeft (oneLine_name _) _,
    oneLine_alignRight (oneLine_toString _) _, oneLine_alignRight (oneLine_toString _) _,
    oneLine_alignRight (oneLine_toString _) _, hshared⟩

/-! ## Lines about a node -/

theorem words_regionLine (index : Nat) (region : Region) :
    words (s!"Index {index} is in the {region.name} region (not chunked)").toList =
      ["Index", toString index, "is", "in", "the", region.name, "region", "(not", "chunked)"] := by
  have hparts : (s!"Index {index} is in the {region.name} region (not chunked)").toList =
      "Index ".toList ++ ((toString index).toList ++ (" is in the ".toList ++
        (region.name.toList ++ " region (not chunked)".toList))) := by
    simp only [String.toList_append, List.append_assoc]
    rfl
  rw [hparts, words_append_of_getLast? rfl rfl, words_append_of_head? rfl rfl,
    words_append_of_getLast? rfl rfl, words_append_of_head? rfl rfl, words_toString, words_name]
  rfl

theorem words_indexLine (index : Nat) :
    words (s!"Index {index}:").toList = labelled ["Index"] index := by
  have hparts : (s!"Index {index}:").toList =
      "Index ".toList ++ ((toString index).toList ++ [':']) := by
    simp only [String.toList_append, List.append_assoc]
    rfl
  rw [hparts, words_append_of_getLast? rfl rfl, words_append_of_head? rfl rfl, words_toString]
  rfl

/-- The words of the lines about a node. -/
def NodeAnswer.lineWords : NodeAnswer → List (List String)
  | .invalid _ => []
  | .notChunked index region =>
    [[], ["Index", toString index, "is", "in", "the", region.name, "region", "(not", "chunked)"]]
  | .located p =>
    [[], labelled ["Index"] p.index, labelled ["depth"] p.depth,
      labelled ["chunk", "id"] p.chunkStart, labelled ["chunk", "num"] p.number,
      labelled ["offset"] p.offset, labelled ["chunk", "size"] p.capacity]

theorem NodeAnswer.map_words_lines (a : NodeAnswer) :
    a.lines.map (fun line => words line.toList) = a.lineWords := by
  cases a with
  | invalid arg => rfl
  | notChunked index region =>
    unfold lines lineWords
    rw [List.map_cons, List.map_cons, words_regionLine]
    rfl
  | located p =>
    have hdepth : words (s!"  depth        {p.depth}").toList = labelled ["depth"] p.depth :=
      words_append_toString rfl rfl p.depth
    have hid : words (s!"  chunk id     {p.chunkStart}").toList =
        labelled ["chunk", "id"] p.chunkStart :=
      words_append_toString rfl rfl p.chunkStart
    have hnumber : words (s!"  chunk num    {p.number}").toList =
        labelled ["chunk", "num"] p.number :=
      words_append_toString rfl rfl p.number
    have hoffset : words (s!"  offset       {p.offset}").toList = labelled ["offset"] p.offset :=
      words_append_toString rfl rfl p.offset
    have hsize : words (s!"  chunk size   {p.capacity}").toList =
        labelled ["chunk", "size"] p.capacity :=
      words_append_toString rfl rfl p.capacity
    unfold lines lineWords
    simp only [List.map_cons, List.map_nil, words_indexLine, hdepth, hid, hnumber, hoffset, hsize]
    rfl

theorem NodeAnswer.oneLine_lines (a : NodeAnswer) : ∀ line ∈ a.lines, OneLine line := by
  cases a with
  | invalid arg => exact nofun
  | notChunked index region =>
    simp +decide only [lines, List.forall_mem_cons, oneLine_append, oneLine_toString, and_true,
      true_and]
    exact oneLine_name region
  | located p =>
    simp +decide only [lines, List.forall_mem_cons, oneLine_append, oneLine_toString, and_true]

/-! ## The table -/

/-- The lines behind the header: the table, and what is said about a node. -/
def linesBehindHeader (rows : List LayoutRow) (said : Option NodeAnswer) : List String :=
  titleLine :: rows.map rowLine ++ (said.map NodeAnswer.lines).getD []

def tableText (rows : List LayoutRow) (said : Option NodeAnswer) : String :=
  unlines (linesBehindHeader rows said)

theorem oneLine_linesBehindHeader (rows : List LayoutRow) (said : Option NodeAnswer) :
    ∀ line ∈ linesBehindHeader rows said, OneLine line := by
  unfold linesBehindHeader
  rw [List.cons_append, List.forall_mem_cons, List.forall_mem_append, List.forall_mem_map]
  refine ⟨by decide, fun row _ => oneLine_rowLine row, ?_⟩
  cases said with
  | none => exact nofun
  | some a => exact a.oneLine_lines

theorem map_words_linesBehindHeader (rows : List LayoutRow) (said : Option NodeAnswer) :
    (linesBehindHeader rows said).map (fun line => words line.toList) =
      titleWords :: rows.map rowWords ++ (said.map NodeAnswer.lineWords).getD [] := by
  have htitle : words titleLine.toList = titleWords := by decide
  have hsaid : ((said.map NodeAnswer.lines).getD []).map (fun line => words line.toList) =
      (said.map NodeAnswer.lineWords).getD [] := by
    cases said with
    | none => rfl
    | some a => exact a.map_words_lines
  unfold linesBehindHeader
  simp only [List.map_append, List.map_cons, List.map_map, Function.comp_def, words_rowLine, htitle,
    hsaid]

/-- The text ends with its last line break, so an empty line is read at its end. -/
theorem wordLines_tableText (rows : List LayoutRow) (said : Option NodeAnswer) :
    wordLines (tableText rows said) =
      titleWords :: rows.map rowWords ++ (said.map NodeAnswer.lineWords).getD [] ++ [[]] := by
  have hread := wordLines_unlines (oneLine_linesBehindHeader rows said) ""
  rw [String.append_empty, map_words_linesBehindHeader] at hread
  exact hread

/-- What is read of a table, line by line. -/
theorem filterMap_wordLines_tableText {α : Type} (read : List String → Option α)
    (htitle : read titleWords = none) (hempty : read [] = none) (rows : List LayoutRow)
    (said : Option NodeAnswer) :
    (wordLines (tableText rows said)).filterMap read =
      rows.filterMap (fun row => read (rowWords row)) ++
        ((said.map NodeAnswer.lineWords).getD []).filterMap read := by
  rw [wordLines_tableText, List.filterMap_append, List.filterMap_append,
    List.filterMap_cons_none htitle, List.filterMap_cons_none hempty, List.filterMap_nil,
    List.append_nil, List.filterMap_map]
  rfl

/-- The rows that stand in a table are those that it was printed from. -/
theorem rowsIn_tableText (rows : List LayoutRow) (said : Option NodeAnswer) :
    rowsIn (tableText rows said) = rows := by
  have hsaid : ((said.map NodeAnswer.lineWords).getD []).filterMap row? = [] := by
    cases said with
    | none => rfl
    | some a => cases a <;> rfl
  unfold rowsIn
  rw [filterMap_wordLines_tableText row? (by decide) rfl, hsaid, List.append_nil]
  simp only [row?_rowWords, List.filterMap_some]

/-! ## What is told about a node -/

theorem five_le_length_rowWords (row : LayoutRow) : 5 ≤ (rowWords row).length := by
  rw [rowWords, List.length_append]
  exact Nat.le_add_right 5 _

theorem length_rowWords_le (row : LayoutRow) : (rowWords row).length ≤ 6 := by
  rw [rowWords, List.length_append]
  cases row.shared <;> exact Nat.le_of_ble_eq_true rfl

theorem filterMap_value?_tableText {label : List String} (h : label.length < 4)
    (rows : List LayoutRow) (said : Option NodeAnswer) :
    (wordLines (tableText rows said)).filterMap (value? label) =
      ((said.map NodeAnswer.lineWords).getD []).filterMap (value? label) := by
  have hrow (row : LayoutRow) : value? label (rowWords row) = none := by
    have hlength := five_le_length_rowWords row
    exact value?_of_length_ne (by omega)
  have htitle : value? label titleWords = none := by
    have hlength : titleWords.length = 6 := rfl
    exact value?_of_length_ne (by omega)
  rw [filterMap_wordLines_tableText _ htitle (value?_nil label)]
  simp only [hrow, List.filterMap_none, List.nil_append]

theorem region?_of_length_ne {line : List String} (h : line.length ≠ 9) : region? line = none := by
  unfold region?
  split
  · exact absurd rfl h
  · rfl

theorem filterMap_region?_tableText (rows : List LayoutRow) (said : Option NodeAnswer) :
    (wordLines (tableText rows said)).filterMap region? =
      ((said.map NodeAnswer.lineWords).getD []).filterMap region? := by
  have hrow (row : LayoutRow) : region? (rowWords row) = none := by
    have hlength := length_rowWords_le row
    exact region?_of_length_ne (by omega)
  rw [filterMap_wordLines_tableText _ rfl rfl]
  simp only [hrow, List.filterMap_none, List.nil_append]

theorem region?_labelled {label : List String} (h : label.length < 4) (n : Nat) :
    region? (labelled label n) = none := by
  apply region?_of_length_ne
  rw [labelled, List.length_append, List.length_singleton]
  omega

theorem region?_regionLine (index : Nat) (region : Region) :
    region? ["Index", toString index, "is", "in", "the", region.name, "region", "(not", "chunked)"]
      = some (index, region) := by
  simp only [region?, number?_toString, regionNamed?_name, Option.bind_eq_bind, Option.bind_some,
    Option.pure_def]

theorem NodeText.ofLines_lineWords (a : NodeAnswer) : ofLines a.lineWords = a.told := by
  cases a with
  | invalid arg => rfl
  | notChunked index region =>
    have hregion : (NodeAnswer.lineWords (.notChunked index region)).filterMap region? =
        [(index, region)] := by
      rw [NodeAnswer.lineWords, List.filterMap_cons_none rfl,
        List.filterMap_cons_some (region?_regionLine index region), List.filterMap_nil]
    unfold ofLines NodeAnswer.told
    rw [hregion]
    rfl
  | located p =>
    simp [ofLines, NodeAnswer.lineWords, NodeAnswer.told, value?_nil, value?_labelled,
      region?_labelled, region?_of_length_ne]

/-- The labels of the numbers that are told about nodes. -/
def nodeLabels : List (List String) :=
  [["Index"], ["depth"], ["chunk", "id"], ["chunk", "num"], ["offset"], ["chunk", "size"]]

theorem NodeText.ofLines_congr {lines lines' : List (List String)}
    (hregion : lines.filterMap region? = lines'.filterMap region?)
    (hvalue : ∀ label ∈ nodeLabels,
      lines.filterMap (value? label) = lines'.filterMap (value? label)) :
    ofLines lines = ofLines lines' := by
  simp only [nodeLabels, List.forall_mem_cons] at hvalue
  obtain ⟨hindex, hdepth, hid, hnumber, hoffset, hsize, -⟩ := hvalue
  unfold ofLines
  rw [hregion, hindex, hdepth, hid, hnumber, hoffset, hsize]

/-- What is told about a node is what was said, and no row of the table is read as such. -/
theorem read_tableText (rows : List LayoutRow) (said : Option NodeAnswer) :
    NodeText.read (tableText rows said) = (said.map NodeAnswer.told).getD {} := by
  have hlabel : ∀ label ∈ nodeLabels, label.length < 4 := by decide
  have hlines : NodeText.read (tableText rows said) =
      NodeText.ofLines ((said.map NodeAnswer.lineWords).getD []) :=
    NodeText.ofLines_congr (filterMap_region?_tableText rows said)
      fun label hmem => filterMap_value?_tableText (hlabel label hmem) rows said
  rw [hlines]
  cases said with
  | none => rfl
  | some a => exact NodeText.ofLines_lineWords a

/-! ## The header -/

/-- The words with which the lines of the header begin. -/
def headings : List String :=
  ["===", "Config", "Dimensions", "Null", "Base", "Cold", "Sparse", "Chunk"]

/-- The line is empty, or begins as those of the header do. -/
def IsHeading (line : List String) : Prop := ∀ w ∈ line.head?, w ∈ headings

instance (line : List String) : Decidable (IsHeading line) :=
  inferInstanceAs (Decidable (∀ w ∈ line.head?, _))

theorem isWord_of_mem_headings : ∀ w ∈ headings, IsWord w := by decide

/-- A line begins as its first part does, if there is a gap in this. -/
theorem isHeading_append {a : String} (hgap : a.toList.dropWhile (!isGap ·) ≠ [])
    (hfirst : String.ofList (a.toList.takeWhile (!isGap ·)) ∈ headings) (b : String) :
    IsHeading (words (a ++ b).toList) := by
  obtain ⟨c, rest, hrest⟩ := List.exists_cons_of_ne_nil hgap
  have hc : isGap c = true := by
    have hhead := List.head_dropWhile_not _ hgap
    simpa only [hrest, List.head_cons, Bool.not_eq_false'] using hhead
  have htext : (a ++ b).toList = a.toList.takeWhile (!isGap ·) ++ c :: (rest ++ b.toList) := by
    rw [← List.cons_append, ← hrest, ← List.append_assoc, List.takeWhile_append_dropWhile,
      String.toList_append]
  have hwords := words_of_isWord (isWord_of_mem_headings _ hfirst)
  rw [String.toList_ofList] at hwords
  unfold IsHeading
  rw [htext, words_append hc, hwords]
  rintro w ⟨⟩
  exact hfirst

theorem isHeading_headerLines (path : String) (g : Geometry) :
    ∀ line ∈ headerLines path g, IsHeading (words line.toList) := by
  unfold headerLines
  simp only [List.forall_mem_append, List.forall_mem_cons, String.append_assoc]
  refine ⟨⟨⟨by decide, ?config, ?dimensions, ?null, ?base, ?cold, nofun⟩, ?sparse⟩,
    ?chunk, by decide, nofun⟩
  case sparse =>
    split
    · rw [List.forall_mem_singleton]
      exact isHeading_append (by decide) (by decide) _
    · exact nofun
  all_goals exact isHeading_append (by decide) (by decide) _

theorem oneLine_headerLines {path : String} (h : OneLine path) (g : Geometry) :
    ∀ line ∈ headerLines path g, OneLine line := by
  have hdynamic : OneLine (if g.dynamic then " (dynamic)" else "") := by
    cases g.dynamic <;> decide
  unfold headerLines
  simp +decide only [List.forall_mem_append, List.forall_mem_cons, oneLine_append,
    oneLine_toString, and_true, true_and]
  refine ⟨h, ?sparse⟩
  split
  · rw [List.forall_mem_singleton]
    simp +decide only [oneLine_append, oneLine_toString, hdynamic, and_true]
  · exact nofun

theorem row?_of_isHeading {line : List String} (h : IsHeading line) : row? line = none := by
  have hword : ∀ w ∈ headings, number? w = none := by decide
  unfold row?
  split
  · next depth _ _ _ _ _ =>
    rw [hword depth (h depth rfl)]
    rfl
  · rfl

theorem value?_of_isHeading {label line : List String} (hlabel : ¬ IsHeading label)
    (h : IsHeading line) : value? label line = none := by
  unfold value?
  apply if_neg
  rintro rfl
  apply hlabel
  intro w hw
  rw [List.head?_dropLast, Option.mem_def, Option.ite_none_right_eq_some] at hw
  exact h w hw.2

theorem region?_of_isHeading {line : List String} (h : IsHeading line) : region? line = none := by
  unfold region?
  split
  · exact absurd (h _ rfl) (by decide)
  · rfl

/-- Nothing is read of the header, so all that is read of the output stands behind it. -/
theorem filterMap_wordLines_output {α : Type} {path : String} (hpath : OneLine path) (g : Geometry)
    {read : List String → Option α} (hread : ∀ line, IsHeading line → read line = none)
    (text : String) : (wordLines (unlines (headerLines path g) ++ text)).filterMap read =
      (wordLines text).filterMap read := by
  have hheader : ((headerLines path g).map fun line => words line.toList).filterMap read = [] := by
    rw [List.filterMap_eq_nil_iff, List.forall_mem_map]
    exact fun line hline => hread _ (isHeading_headerLines path g line hline)
  rw [wordLines_unlines (oneLine_headerLines hpath g), List.filterMap_append, hheader,
    List.nil_append]

variable {path : String} {g : Geometry} {rows : List LayoutRow} {said : Option NodeAnswer}

theorem output_table : (Answer.table path g rows said).output =
    unlines (headerLines path g) ++ tableText rows said := by
  change unlines (tableLines path g rows ++ _) = _
  rw [tableLines, List.append_assoc, unlines_append]
  rfl

/-- The rows that stand in the output of a table are those of the table. -/
theorem rowsIn_output (hpath : OneLine path) :
    rowsIn (Answer.table path g rows said).output = rows := by
  rw [output_table, rowsIn, filterMap_wordLines_output hpath g fun _ => row?_of_isHeading]
  exact rowsIn_tableText rows said

/-- The output of a table tells about a node what is said about it. -/
theorem read_output (hpath : OneLine path) :
    NodeText.read (Answer.table path g rows said).output = (said.map NodeAnswer.told).getD {} := by
  have hlabel : ∀ label ∈ nodeLabels, ¬ IsHeading label := by decide
  rw [← read_tableText, output_table]
  apply NodeText.ofLines_congr
  · exact filterMap_wordLines_output hpath g (fun _ => region?_of_isHeading) _
  · intro label hmem
    exact filterMap_wordLines_output hpath g (fun _ => value?_of_isHeading (hlabel label hmem)) _

end ChunkedTree.CommandLine
