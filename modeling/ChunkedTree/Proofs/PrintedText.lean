/-
  Printed text as lines of words.

  A text is read line by line (`wordLines`), and a line word by word: blanks and colons only part
  the words. So the blanks that align a column are not seen (`words_tableLine`), and lines that hold
  no line break are read back one by one (`wordLines_unlines`). A number stands in a line as a word
  of its own, perhaps behind a label (`value?`).
-/
import ChunkedTree.Proofs.DocumentText
import ChunkedTree.Proofs.Numeral

namespace ChunkedTree.CommandLine

/-! ## Words -/

/-- What parts the words of a line. -/
def isGap (c : Char) : Bool := c == ' ' || c == ':'

/-- The words of a line. -/
def words (line : List Char) : List String :=
  ((line.splitOnP isGap).filter (fun w => !w.isEmpty)).map String.ofList

/-- The words of each line of a text. -/
def wordLines (text : String) : List (List String) := (text.toList.splitOn '\n').map words

theorem words_append {c : Char} (hc : isGap c = true) (a b : List Char) :
    words (a ++ c :: b) = words a ++ words b := by
  unfold words
  rw [List.splitOnP_append_cons _ _ hc, List.filter_append, List.map_append]

theorem words_cons {c : Char} (hc : isGap c = true) (a : List Char) : words (c :: a) = words a :=
  words_append hc [] a

/-- A text that ends with a gap parts its words from those behind it. -/
theorem words_append_of_getLast? {a : List Char} {c : Char} (h : a.getLast? = some c)
    (hc : isGap c = true) (b : List Char) : words (a ++ b) = words a ++ words b := by
  obtain ⟨front, rfl⟩ := List.getLast?_eq_some_iff.1 h
  have hfront : words (front ++ [c]) = words front := by
    rw [words_append hc]
    exact List.append_nil _
  rw [List.append_assoc, List.singleton_append, words_append hc, hfront]

/-- A text that begins with a gap parts its words from those before it. -/
theorem words_append_of_head? {b : List Char} {c : Char} (h : b.head? = some c)
    (hc : isGap c = true) (a : List Char) : words (a ++ b) = words a ++ words b := by
  obtain ⟨tail, rfl⟩ := List.head?_eq_some_iff.1 h
  rw [words_append hc, words_cons hc]

/-- The text is a word by itself. -/
def IsWord (w : String) : Prop := w.toList ≠ [] ∧ w.toList.any isGap = false

instance (w : String) : Decidable (IsWord w) := inferInstanceAs (Decidable (_ ∧ _))

theorem words_of_isWord {w : String} (h : IsWord w) : words w.toList = [w] := by
  have hgaps : ∀ c ∈ w.toList, isGap c = false := by
    simpa only [List.any_eq_false, Bool.not_eq_true] using h.2
  unfold words
  rw [List.splitOnP_eq_singleton hgaps]
  simp [h.1]

theorem isWord_toString (n : Nat) : IsWord (toString n) := by
  unfold IsWord
  rw [Nat.toString_eq_repr, Nat.toList_repr, List.any_eq_false]
  refine ⟨Nat.toDigits_ne_nil, fun c hc => ?_⟩
  have hdigit := Json.isDigit_of_mem_toDigits hc
  unfold isGap
  rw [Bool.or_eq_true, beq_iff_eq, beq_iff_eq]
  rintro (rfl | rfl)
  · cases hdigit
  · cases hdigit

/-! ## Numbers -/

/-- A number in decimal digits. -/
def number? (word : String) : Option Nat := decimal? word.toList

/-- The number behind a label. -/
def value? (label line : List String) : Option Nat :=
  if line.dropLast = label then line.getLast?.bind number? else none

theorem words_toString (n : Nat) : words (toString n).toList = [toString n] :=
  words_of_isWord (isWord_toString n)

theorem number?_toString (n : Nat) : number? (toString n) = some n := by
  unfold number?
  rw [Nat.toString_eq_repr, Nat.toList_repr, decimal?_eq_some_iff]
  exact ⟨Nat.toDigits_ne_nil, fun _ => Json.isDigit_of_mem_toDigits, Json.ofDigits_toDigits n⟩

/-- The words of a number behind a label. -/
def labelled (label : List String) (n : Nat) : List String := label ++ [toString n]

/-- A number stands behind its label, which ends with a gap. -/
theorem words_append_toString {label : String} {c : Char} (h : label.toList.getLast? = some c)
    (hc : isGap c = true) (n : Nat) :
    words (label ++ toString n).toList = labelled (words label.toList) n := by
  rw [String.toList_append, words_append_of_getLast? h hc, words_toString, labelled]

theorem value?_labelled (label other : List String) (n : Nat) :
    value? label (labelled other n) = if other = label then some n else none := by
  unfold value? labelled
  rw [List.dropLast_concat, List.getLast?_concat, Option.bind_some, number?_toString]

/-- A labelled number has one word more than its label. -/
theorem value?_of_length_ne {label line : List String} (h : line.length ≠ label.length + 1) :
    value? label line = none := by
  unfold value?
  split
  · next hlabel =>
    have hlength := congrArg List.length hlabel
    rw [List.length_dropLast] at hlength
    obtain rfl := List.length_eq_zero_iff.1 (show line.length = 0 by omega)
    rfl
  · rfl

theorem value?_nil (label : List String) : value? label [] = none :=
  value?_of_length_ne (Nat.zero_ne_add_one _)

/-! ## Columns -/

theorem words_replicate_append (k : Nat) (a : List Char) :
    words (List.replicate k ' ' ++ a) = words a := by
  induction k with
  | zero => rfl
  | succ k ih => rw [List.replicate_succ, List.cons_append, words_cons rfl, ih]

theorem words_append_replicate (k : Nat) (a : List Char) :
    words (a ++ List.replicate k ' ') = words a := by
  cases k with
  | zero => rw [List.replicate_zero, List.append_nil]
  | succ k =>
    have hblank : words (List.replicate k ' ') = [] := by
      rw [← List.append_nil (List.replicate k ' '), words_replicate_append]
      rfl
    rw [List.replicate_succ, words_append rfl, hblank, List.append_nil]

theorem words_alignRight (width : Nat) (s : String) :
    words (alignRight width s).toList = words s.toList := by
  unfold alignRight
  rw [String.toList_append, String.toList_ofList, words_replicate_append]

theorem words_alignLeft (width : Nat) (s : String) :
    words (alignLeft width s).toList = words s.toList := by
  unfold alignLeft
  rw [String.toList_append, String.toList_ofList, words_append_replicate]

theorem words_intercalate (columns : List (List Char)) :
    words ([' ', ' '].intercalate columns) = columns.flatMap words := by
  induction columns with
  | nil => rfl
  | cons a rest ih =>
    cases rest with
    | nil => simp
    | cons b rest =>
      rw [List.intercalate_cons_cons, List.append_assoc, List.cons_append, words_append rfl,
        List.cons_append, List.nil_append, words_cons rfl, ih]
      rfl

theorem words_tableLine (depth region first count capacity shared : String) :
    words (tableLine depth region first count capacity shared).toList =
      words depth.toList ++ (words region.toList ++ (words first.toList ++ (words count.toList ++
        (words capacity.toList ++ words shared.toList)))) := by
  unfold tableLine
  rw [String.toList_intercalate]
  change words ([' ', ' '].intercalate _) = _
  rw [words_intercalate]
  simp only [List.map_cons, List.map_nil, List.flatMap_cons, List.flatMap_nil, List.append_nil,
    words_alignRight, words_alignLeft]

/-! ## Lines -/

/-- The text has no line break. -/
def OneLine (s : String) : Prop := '\n' ∉ s.toList

theorem oneLine_append {s t : String} : OneLine (s ++ t) ↔ OneLine s ∧ OneLine t := by
  unfold OneLine
  rw [String.toList_append, List.mem_append, not_or]

instance (s : String) : Decidable (OneLine s) := inferInstanceAs (Decidable (_ ∉ _))

theorem oneLine_toString (n : Nat) : OneLine (toString n) := by
  unfold OneLine
  rw [Nat.toString_eq_repr, Nat.toList_repr]
  intro hbreak
  cases Json.isDigit_of_mem_toDigits hbreak

theorem oneLine_blanks (k : Nat) : OneLine (String.ofList (List.replicate k ' ')) := by
  unfold OneLine
  rw [String.toList_ofList, List.mem_replicate]
  exact fun h => absurd h.2 (by decide)

theorem oneLine_alignRight {s : String} (h : OneLine s) (width : Nat) :
    OneLine (alignRight width s) :=
  oneLine_append.2 ⟨oneLine_blanks _, h⟩

theorem oneLine_alignLeft {s : String} (h : OneLine s) (width : Nat) :
    OneLine (alignLeft width s) :=
  oneLine_append.2 ⟨h, oneLine_blanks _⟩

theorem oneLine_intercalate {columns : List String} (h : ∀ column ∈ columns, OneLine column) :
    OneLine (String.intercalate "  " columns) := by
  unfold OneLine
  rw [String.toList_intercalate]
  induction columns with
  | nil => exact List.not_mem_nil
  | cons a rest ih =>
    obtain ⟨ha, hrest⟩ := List.forall_mem_cons.1 h
    cases rest with
    | nil => simpa [OneLine] using ha
    | cons b rest =>
      rw [List.map_cons, List.map_cons, List.intercalate_cons_cons, List.append_assoc,
        List.mem_append, List.mem_append, not_or, not_or]
      exact ⟨ha, by decide, ih hrest⟩

theorem unlines_append (lines more : List String) :
    unlines (lines ++ more) = unlines lines ++ unlines more := by
  unfold unlines
  rw [List.map_append, String.join_append]

theorem toList_unlines (lines : List String) :
    (unlines lines).toList = lines.flatMap fun line => line.toList ++ ['\n'] := by
  unfold unlines
  rw [String.toList_join, List.flatMap_map]
  simp only [String.toList_append]
  rfl

theorem wordLines_unlines {lines : List String} (h : ∀ line ∈ lines, OneLine line)
    (text : String) : wordLines (unlines lines ++ text) =
      lines.map (fun line => words line.toList) ++ wordLines text := by
  unfold wordLines
  rw [String.toList_append, toList_unlines]
  induction lines with
  | nil => rfl
  | cons line lines ih =>
    obtain ⟨hline, hlines⟩ := List.forall_mem_cons.1 h
    rw [List.flatMap_cons, List.append_assoc, List.append_assoc, List.singleton_append,
      List.splitOn_append_cons_self_of_not_mem hline, List.map_cons, List.map_cons, ih hlines,
      List.cons_append]

end ChunkedTree.CommandLine
