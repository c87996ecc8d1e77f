/-
  Laws of the node numbering.

  Level sizes are the powers of the branching factor and level starts are their sums
  (`start_eq_sum`). The depth of a node is the one level that holds it (`depth_eq_iff`): it comes
  from a bit length, and the bit length of `index * (branching - 1) + 1` is that of a level size
  exactly where a level begins (`start_mul_add_one`). A level size divides the nodes between two
  level starts only if the first of them is deep enough (`size_dvd_size_mul_start_iff`). All this
  is also what the checked functions tell, down to the deepest level whose end can be told
  (`depth?_inverts_start?`).
-/
import ChunkedTree.Level
import Mathlib.Algebra.Ring.GeomSum

namespace ChunkedTree.Level

variable {n : Nat}

/-! ## Level sizes -/

theorem branching_eq_pow (n : Nat) : branching n = 2 ^ n := Nat.one_shiftLeft n

theorem size_eq_two_pow (n d : Nat) : size n d = 2 ^ (d * n) := Nat.one_shiftLeft _

theorem size_eq_pow (n d : Nat) : size n d = branching n ^ d := by
  rw [size_eq_two_pow, branching_eq_pow, ← Nat.pow_mul, Nat.mul_comm]

theorem size_zero (n : Nat) : size n 0 = 1 := by
  rw [size_eq_pow, Nat.pow_zero]

theorem size_one (n : Nat) : size n 1 = branching n := by
  rw [size_eq_pow, Nat.pow_one]

theorem size_add (n a b : Nat) : size n (a + b) = size n a * size n b := by
  rw [size_eq_pow, size_eq_pow, size_eq_pow, Nat.pow_add]

theorem size_pos (n d : Nat) : 0 < size n d := by
  rw [size_eq_two_pow]
  exact Nat.two_pow_pos _

theorem two_le_branching (hn : 0 < n) : 2 ≤ branching n := by
  rw [branching_eq_pow]
  exact Nat.le_self_pow (Nat.ne_of_gt hn) 2

theorem size_dvd_size {a b : Nat} (h : a ≤ b) : size n a ∣ size n b := by
  rw [size_eq_pow, size_eq_pow]
  exact Nat.pow_dvd_pow _ h

/-! ## Level starts -/

theorem start_eq_sum (hn : 0 < n) (d : Nat) :
    start n d = ∑ k ∈ Finset.range d, branching n ^ k := by
  rw [start, size_eq_pow, Nat.geomSum_eq (two_le_branching hn)]

theorem start_zero (hn : 0 < n) : start n 0 = 0 := by
  rw [start_eq_sum hn, Finset.sum_range_zero]

theorem start_succ (hn : 0 < n) (d : Nat) : start n (d + 1) = start n d + size n d := by
  rw [start_eq_sum hn, start_eq_sum hn, Finset.sum_range_succ, size_eq_pow]

/-- The nodes of `b` levels from depth `a` on are `size n a` complete trees of `b` levels. -/
theorem start_add (hn : 0 < n) (a b : Nat) :
    start n (a + b) = start n a + size n a * start n b := by
  induction b with
  | zero => rw [start_zero hn, Nat.mul_zero, Nat.add_zero, Nat.add_zero]
  | succ b ih =>
    rw [← Nat.add_assoc, start_succ hn, ih, start_succ hn, size_add, Nat.mul_add, Nat.add_assoc]

theorem start_one (hn : 0 < n) : start n 1 = 1 := by
  rw [start_succ hn, start_zero hn, size_zero]

/-- Scaled by one less than the branching factor, a level starts one short of its own size. -/
theorem start_mul_add_one (hn : 0 < n) (d : Nat) :
    start n d * (branching n - 1) + 1 = size n d := by
  have hb := two_le_branching hn
  induction d with
  | zero => rw [start_zero hn, size_zero, Nat.zero_mul]
  | succ d ih =>
    have hs : size n d * (branching n - 1) + size n d = size n (d + 1) := by
      rw [size_add, size_one, ← Nat.mul_succ]
      congr 1
      omega
    rw [start_succ hn, Nat.add_mul]
    omega

/-- A level has more nodes than all levels above it together. -/
theorem start_lt_size (hn : 0 < n) (d : Nat) : start n d < size n d := by
  have hb := two_le_branching hn
  rw [← start_mul_add_one hn d]
  exact Nat.lt_succ_of_le (Nat.le_mul_of_pos_right _ (by omega))

theorem start_lt_start (hn : 0 < n) {d e : Nat} (h : d < e) : start n d < start n e := by
  obtain ⟨k, rfl⟩ := Nat.exists_eq_add_of_lt h
  have hpos : 0 < size n d * start n (k + 1) := by
    apply Nat.mul_pos (size_pos n d)
    rw [start_succ hn]
    exact Nat.add_pos_right _ (size_pos n k)
  rw [Nat.add_assoc, start_add hn]
  omega

theorem start_le_start (hn : 0 < n) {d e : Nat} (h : d ≤ e) : start n d ≤ start n e := by
  rcases Nat.lt_or_eq_of_le h with h | h
  · exact Nat.le_of_lt (start_lt_start hn h)
  · rw [h]

/-! ## The depth of a node -/

/-- A level begins at or before a node exactly if the node is at least that deep. -/
theorem start_le_iff (hn : 0 < n) {d i : Nat} : start n d ≤ i ↔ d ≤ depth n i := by
  have hb := two_le_branching hn
  rw [depth, Nat.le_div_iff_mul_le hn, Nat.le_log2 (Nat.succ_ne_zero _), ← size_eq_two_pow,
    ← start_mul_add_one hn, Nat.add_le_add_iff_right, Nat.mul_le_mul_right_iff (by omega)]

theorem lt_start_iff (hn : 0 < n) {d i : Nat} : i < start n d ↔ depth n i < d := by
  have := start_le_iff hn (d := d) (i := i)
  omega

theorem depth_eq_iff (hn : 0 < n) {d i : Nat} :
    depth n i = d ↔ start n d ≤ i ∧ i < start n (d + 1) := by
  rw [start_le_iff hn, lt_start_iff hn]
  omega

theorem start_depth_le (hn : 0 < n) (i : Nat) : start n (depth n i) ≤ i :=
  (start_le_iff hn).2 (Nat.le_refl _)

theorem depth_start (hn : 0 < n) (d : Nat) : depth n (start n d) = d :=
  (depth_eq_iff hn).2 ⟨Nat.le_refl _, start_lt_start hn (Nat.lt_succ_self d)⟩

theorem start_le_start_iff (hn : 0 < n) {d e : Nat} : start n d ≤ start n e ↔ d ≤ e := by
  rw [start_le_iff hn, depth_start hn]

/-! ## Which level sizes divide a span of levels -/

/-- A number of nodes in complete trees is no multiple of the branching factor: their roots are
    left over. -/
theorem not_branching_dvd_start_succ (hn : 0 < n) (b : Nat) : ¬ branching n ∣ start n (b + 1) := by
  intro h
  rw [Nat.add_comm, start_add hn, start_one hn, size_one,
    Nat.dvd_add_left (Nat.dvd_mul_right _ _)] at h
  have := two_le_branching hn
  have := Nat.le_of_dvd Nat.one_pos h
  omega

theorem size_dvd_size_mul_start_iff (hn : 0 < n) {k a b : Nat} :
    size n k ∣ size n a * start n b ↔ k ≤ a ∨ b = 0 := by
  constructor
  · intro h
    by_contra hcon
    obtain ⟨hka, hb⟩ := not_or.1 hcon
    obtain ⟨j, rfl⟩ := Nat.exists_eq_add_of_lt (Nat.lt_of_not_le hka)
    obtain ⟨b, rfl⟩ := Nat.exists_eq_succ_of_ne_zero hb
    rw [Nat.add_assoc, size_add, Nat.mul_dvd_mul_iff_left (size_pos n a)] at h
    apply not_branching_dvd_start_succ hn b
    rw [← size_one]
    exact Nat.dvd_trans (size_dvd_size (Nat.le_add_left 1 j)) h
  · intro h
    rcases h with hka | hb
    · exact Nat.dvd_mul_right_of_dvd (size_dvd_size hka) _
    · rw [hb, start_zero hn]
      exact Nat.dvd_zero _

/-! ## The checked functions -/

theorem size?_eq_ite (n d : Nat) :
    size? n d = if d * n ≤ maxWord then .ok (size n d) else .error .overflow := by
  unfold size? power? Checked.word
  split
  · rfl
  · rfl

theorem size?_eq_ok_iff {d m : Nat} : size? n d = .ok m ↔ d * n ≤ maxWord ∧ size n d = m := by
  unfold size? power? size
  simp only [bind_eq_ok_iff, pure_eq_ok_iff, Checked.word_eq_ok_iff, and_assoc,
    exists_and_left, exists_eq_left']

theorem start?_eq_ok_iff (hn : 0 < n) (hn' : n < 64) {d m : Nat} :
    start? n d = .ok m ↔ d * n ≤ maxWord ∧ start n d = m := by
  have hb : 0 < branching n - 1 := by
    have := two_le_branching hn
    omega
  unfold start? branching? start
  simp only [bind_eq_ok_iff, size?_eq_ok_iff, if_pos hn', Except.ok.injEq,
    Checked.div_eq_ok_iff, hb, true_and, and_assoc, exists_and_left, exists_eq_left']

theorem start?_eq_ite (hn : 0 < n) (hn' : n < 64) (d : Nat) :
    start? n d = if d * n ≤ maxWord then .ok (start n d) else .error .overflow := by
  by_cases hd : d * n ≤ maxWord
  · rw [if_pos hd, (start?_eq_ok_iff hn hn').2 ⟨hd, rfl⟩]
  · unfold start?
    rw [size?_eq_ite, if_neg hd, if_neg hd]
    rfl

theorem depth?_branching (hn : n = 2 ∨ n = 3) (i : Nat) :
    depth? (branching n) i = .ok (depth n i) := by
  rcases hn with rfl | rfl
  · rfl
  · rfl

/-- Told by the checked functions, level `d` is a bracket of indexes, and its depth is told of the
    indexes in it and of no other ones. -/
structure Inverts (n d : Nat) : Prop where
  factor : branching? n = .ok (branching n)
  first : start? n d = .ok (start n d)
  next : start? n (d + 1) = .ok (start n (d + 1))
  count : size? n d = .ok (size n d)
  inverts : ∀ i, depth? (branching n) i = .ok d ↔ start n d ≤ i ∧ i < start n (d + 1)
  span : Checked.sub (start n (d + 1)) (start n d) = .ok (size n d)
  sum : start n d = ∑ k ∈ Finset.range d, branching n ^ k

/-- **Depth inversion is exact.** As long as the exponent of the next level's size is a word, an
    index of any magnitude has the depth `d` exactly if it lies between the starts of the level and
    of the next one. They are as far apart as the level has nodes, and sums of powers. -/
theorem depth?_inverts_start? (hn : n = 2 ∨ n = 3) {d : Nat} (hd : (d + 1) * n ≤ maxWord) :
    Inverts n d := by
  have hpos : 0 < n := by omega
  have hlt : n < 64 := by omega
  have hd' : d * n ≤ maxWord := Nat.le_trans (Nat.mul_le_mul_right n (Nat.le_succ d)) hd
  constructor
  case factor =>
    unfold branching?
    exact if_pos hlt
  case first => exact (start?_eq_ok_iff hpos hlt).2 ⟨hd', rfl⟩
  case next => exact (start?_eq_ok_iff hpos hlt).2 ⟨hd, rfl⟩
  case count => exact size?_eq_ok_iff.2 ⟨hd', rfl⟩
  case inverts =>
    intro i
    rw [depth?_branching hn, Except.ok.injEq]
    exact depth_eq_iff hpos
  case span =>
    rw [Checked.sub_of_le (start_le_start hpos (Nat.le_succ d)), start_succ hpos,
      Nat.add_sub_cancel_left]
  case sum => exact start_eq_sum hpos d

/-- The exponent of the size behind this level is the largest word itself. -/
theorem deepestLevel_inverts : (6148914691236517204 + 1) * 3 = maxWord ∧
    Inverts 3 6148914691236517204 :=
  ⟨by decide, depth?_inverts_start? (Or.inr rfl) (by decide)⟩

end ChunkedTree.Level
