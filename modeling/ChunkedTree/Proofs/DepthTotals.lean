/-
  First numbers, counts and ranges of numbers, added up.

  The count of chunks at a depth rounds down what its nodes fill, and the number of its first node
  rounds down what the nodes above it fill. What is lost on the way does not add up to a chunk: at
  an aligned depth nothing is lost, and any other depth ends in the chunk that the next one begins
  with (`lastNumber_eq_firstNumber_succ_of_not_aligned`), or at the seam in a torn chunk of the same
  number. So at every depth first number and count add up to the first number of the next one
  (`firstNumber_succ_eq_add`), and first numbers are sums of counts (`firstNumber_eq_sum`).
-/
import ChunkedTree.Proofs.LayoutReport

namespace ChunkedTree.Geometry

variable {g : Geometry} {d : Nat}

section

variable (hw : g.WellFormed) (hc : g.hasCold = true)
include hw hc

/-- A depth that is not aligned ends with the number that the next one begins with: the two share a
    chunk, or a torn chunk ends at the seam, before the first larger one. -/
theorem lastNumber_eq_firstNumber_succ_of_not_aligned (hd : g.coldBegin ≤ d) (ha : ¬ g.Aligned d) :
    g.lastNumber d = g.firstNumber (d + 1) := by
  obtain ⟨hcross, hg⟩ := not_or.1 (mt (aligned_iff hw hc hd).2 ha)
  by_cases hg' : g.Grows (d + 1)
  · -- no chunk crosses the seam, but the nodes left over there bear the next number already
    have hseam : d = g.sparseBegin :=
      Nat.le_antisymm (Nat.le_of_not_lt fun hlt => hg ⟨hg'.1, hlt⟩) (Nat.le_of_lt_succ hg'.2)
    subst hseam
    have htorn : g.InTornChunk (g.levelLast g.sparseBegin) := by
      have hlast := g.levelLast_lt g.sparseBegin
      have hend := fixedEnd_lt hw hc hcross
      refine ⟨hg'.1, ?_, hlast⟩
      unfold levelLast
      omega
    rw [firstNumber_sparseBegin_succ hw hc hg'.1]
    exact number_of_inTornChunk hw hc htorn
  · apply lastNumber_eq_firstNumber_succ hd hg'
    rw [startsChunk_iff hw hc (Nat.le_succ_of_le hd)]
    have hbelow : d + 1 ≠ g.coldBegin := by omega
    exact not_or.2 ⟨hcross, not_or.2 ⟨hbelow, hg'⟩⟩

theorem firstNumber_succ_eq_add (hd : g.coldBegin ≤ d) :
    g.firstNumber (d + 1) = g.firstNumber d + g.chunkCount d := by
  by_cases ha : g.Aligned d
  · exact firstNumber_succ hw hc hd ha
  · rw [← lastNumber_eq_firstNumber_succ_of_not_aligned hw hc hd ha]
    exact lastNumber_of_not_aligned hw hc hd ha

/-- The chunks before a depth are those that the chunked depths above it fill. -/
theorem firstNumber_eq_sum (hd : g.coldBegin ≤ d) :
    g.firstNumber d = ∑ e ∈ Finset.Ico g.coldBegin d, g.chunkCount e := by
  induction d, hd using Nat.le_induction with
  | base =>
    rw [Finset.Ico_self, Finset.sum_empty]
    exact congrArg Placement.number (place_coldIndexBegin hw)
  | succ d hd ih => rw [firstNumber_succ_eq_add hw hc hd, ih, Finset.sum_Ico_succ_top hd]

/-- The range of numbers ends with the count, or one past it if the depth is not aligned. -/
theorem lastNumber_succ_eq_add (hd : g.coldBegin ≤ d) :
    g.lastNumber d + 1 =
      g.firstNumber d + g.chunkCount d + if g.Aligned d then 0 else 1 := by
  by_cases ha : g.Aligned d
  · rw [if_pos ha, lastNumber_of_aligned hw hc hd ha, Nat.add_zero]
  · rw [if_neg ha, lastNumber_of_not_aligned hw hc hd ha]

end

end ChunkedTree.Geometry

namespace ChunkedTree

open ChunkedTree.Geometry

variable {c : Config} {g : Geometry} {d : Nat}

/-- **Counts, first numbers and ranges.** For a built tree and a chunked depth with the next one
    within reach, shared or not: its first number and its count add up to the first number of the
    next depth; its range of numbers begins with its first number, and is as long as its count, or
    longer by one exactly if the depth is not aligned. And the first number is the sum of the counts
    of all chunked depths above. -/
theorem firstNumber_add_count (hb : c.build = .ok g) (hc : g.hasCold = true)
    (hd : g.coldBegin ≤ d) (hr : g.Reaches (d + 1)) :
    ∃ (count : Nat → Nat) (first : Nat) (aligned : Bool),
      (∀ e, g.coldBegin ≤ e → e ≤ d → g.chunkCount? e = .ok (count e)) ∧
      g.firstNumber? d = .ok first ∧ g.isAligned? d = .ok aligned ∧
      g.firstNumber? (d + 1) = .ok (first + count d) ∧
      g.numberRange? d = .ok ⟨first, first + count d + if aligned then 0 else 1⟩ ∧
      first = ∑ e ∈ Finset.Ico g.coldBegin d, count e := by
  have hw := Config.wellFormed_of_build hb
  have hr' := hr.of_le (Nat.le_succ d)
  refine ⟨g.chunkCount, g.firstNumber d, decide (g.Aligned d), ?_,
    (firstNumber?_eq_ok_iff hw hc hd).2 ⟨hr', rfl⟩, isAligned?_of_reaches hw hc hd hr, ?_, ?_,
    firstNumber_eq_sum hw hc hd⟩
  · intro e _ hed
    exact chunkCount?_of_reaches hw hc (hr.of_le (Nat.succ_le_succ hed))
  · rw [firstNumber?_eq_ok_iff hw hc (Nat.le_succ_of_le hd)]
    exact ⟨hr, firstNumber_succ_eq_add hw hc hd⟩
  · rw [numberRange?_of_reaches hw hc hd hr, lastNumber_succ_eq_add hw hc hd]
    simp only [decide_eq_true_eq]

/-- Depths 4 and 5 fill no chunk and one; depth 6 fills four and lies in five, from chunk 1 on, the
    last of which bears the number that depth 7 begins with. -/
theorem tornQuadtree_firstNumber_add_count :
    Config.tornQuadtree.build = .ok tornQuadtree ∧ tornQuadtree.hasCold = true ∧
      tornQuadtree.coldBegin ≤ 6 ∧ tornQuadtree.Reaches 7 ∧
      tornQuadtree.firstNumber? 6 = .ok 1 ∧ tornQuadtree.chunkCount? 6 = .ok 4 ∧
      tornQuadtree.isAligned? 6 = .ok false ∧ tornQuadtree.firstNumber? 7 = .ok (1 + 4) ∧
      tornQuadtree.numberRange? 6 = .ok ⟨1, 1 + 4 + 1⟩ := by
  have hd : tornQuadtree.coldBegin ≤ 6 := by decide
  have hr : tornQuadtree.Reaches 7 := by decide
  obtain ⟨count, first, aligned, hcount, hfirst, ha, hnext, hrange, _⟩ :=
    firstNumber_add_count tornQuadtree_build rfl hd hr
  have hcount' : tornQuadtree.chunkCount? 6 = .ok 4 := rfl
  have hfirst' : tornQuadtree.firstNumber? 6 = .ok 1 := rfl
  have ha' : tornQuadtree.isAligned? 6 = .ok false := rfl
  obtain rfl := Except.ok.inj (hfirst'.symm.trans hfirst)
  obtain rfl := Except.ok.inj (ha'.symm.trans ha)
  rw [Except.ok.inj ((hcount 6 hd (Nat.le_refl 6)).symm.trans hcount')] at hnext hrange
  exact ⟨tornQuadtree_build, rfl, hd, hr, hfirst', hcount', ha', hnext, hrange⟩

end ChunkedTree
