/-
  Logarithms to the base of a branching factor.

  A word is a power of the branching factor exactly if the test says so, and the floored
  logarithm then is its exponent: the powers of `branching n` are the level sizes `size n k`.
  Of every word the bit counts give the exact logarithms, floored and rounded up
  (`logarithms_exact`).
-/
import ChunkedTree.Logarithm
import ChunkedTree.Proofs.Level
import Mathlib.Data.Nat.Log

namespace ChunkedTree.Logarithm

open Level

variable {n : Nat}

/-! ## Powers of two -/

theorem isPowerOfTwo_iff {v : Nat} : isPowerOfTwo v = true ↔ ∃ e, v = 2 ^ e := by
  unfold isPowerOfTwo
  rw [Nat.one_shiftLeft, Bool.and_eq_true, bne_iff_ne, beq_iff_eq]
  constructor
  · intro h
    exact ⟨v.log2, h.2⟩
  · intro h
    obtain ⟨e, rfl⟩ := h
    rw [Nat.log2_two_pow]
    exact ⟨Nat.ne_of_gt (Nat.two_pow_pos e), rfl⟩

theorem trailingZeros.go_two_pow (bits e : Nat) : trailingZeros.go bits (2 ^ e) = min bits e := by
  induction bits generalizing e with
  | zero => rw [trailingZeros.go, Nat.zero_min]
  | succ bits ih =>
    unfold trailingZeros.go
    cases e with
    | zero => simp
    | succ e =>
      have heven : 2 ^ (e + 1) % 2 = 0 := by rw [Nat.pow_succ, Nat.mul_mod_left]
      have hhalf : 2 ^ (e + 1) / 2 = 2 ^ e := by
        rw [Nat.pow_succ, Nat.mul_div_cancel _ Nat.two_pos]
      rw [heven, hhalf, ih, if_neg Nat.zero_ne_one, Nat.succ_min_succ]

theorem trailingZeros_two_pow {e : Nat} (he : e ≤ 64) : trailingZeros (2 ^ e) = e := by
  unfold trailingZeros
  rw [trailingZeros.go_two_pow]
  omega

/-- The exponent of a power of two that is a word counts no more bits than a word has. -/
theorem exponent_le_of_word {e : Nat} (h : 2 ^ e ≤ maxWord) : e ≤ 64 := by
  by_contra hcon
  have hle : 2 ^ 64 ≤ 2 ^ e := Nat.pow_le_pow_right Nat.two_pos (by omega)
  have hmax : maxWord < 2 ^ 64 := by decide
  omega

/-! ## Powers of a branching factor -/

theorem floor_size (hn : 0 < n) (k : Nat) : floor (size n k) (branching n) = k := by
  unfold floor
  rw [size_eq_two_pow, branching_eq_pow, Nat.log2_two_pow, Nat.log2_two_pow,
    Nat.mul_div_cancel _ hn]

/-- The test for powers answers for every word, and says whether it is a level size. -/
theorem isPower?_branching (hn : 0 < n) (hn' : n ≤ 64) {v : Nat} (hv : v ≤ maxWord) :
    ∃ b, isPower? v (branching n) = .ok b ∧ (b = true ↔ ∃ k, v = size n k) := by
  unfold isPower?
  by_cases hp : isPowerOfTwo v = true
  · obtain ⟨e, rfl⟩ := isPowerOfTwo_iff.1 hp
    rw [if_pos hp, branching_eq_pow, trailingZeros_two_pow hn',
      trailingZeros_two_pow (exponent_le_of_word hv), Checked.divMod_of_pos hn]
    refine ⟨e % n == 0, rfl, ?_⟩
    rw [beq_iff_eq]
    constructor
    · intro h
      exact ⟨e / n, by rw [size_eq_two_pow, Nat.div_mul_cancel (Nat.dvd_of_mod_eq_zero h)]⟩
    · intro h
      obtain ⟨k, hk⟩ := h
      rw [size_eq_two_pow] at hk
      rw [Nat.pow_right_injective (Nat.le_refl 2) hk, Nat.mul_mod_left]
  · refine ⟨false, by rw [if_neg hp]; rfl, ?_⟩
    simp only [Bool.false_eq_true, false_iff]
    intro h
    obtain ⟨k, hk⟩ := h
    exact hp (isPowerOfTwo_iff.2 ⟨k * n, by rw [hk, size_eq_two_pow]⟩)

/-! ## Exact logarithms -/

theorem floor_branching (n v : Nat) : floor v (branching n) = Nat.log (branching n) v := by
  unfold floor
  rw [branching_eq_pow, Nat.log2_two_pow, Nat.log2_eq_log_two, Nat.log_pow_left]

/-- Rounded up, a logarithm is the floored one, or the next number if the value is no power. -/
theorem clog_eq_ite {b v : Nat} (hb : 1 < b) (hv : v ≠ 0) :
    Nat.clog b v = if v = b ^ Nat.log b v then Nat.log b v else Nat.log b v + 1 := by
  by_cases h : v = b ^ Nat.log b v
  · rw [if_pos h]
    conv_lhs => rw [h]
    exact Nat.clog_pow b _ hb
  · have hlt : b ^ Nat.log b v < v := Nat.lt_of_le_of_ne (Nat.pow_log_le_self b hv) (Ne.symm h)
    rw [if_neg h]
    exact Nat.le_antisymm (Nat.clog_le_of_le_pow (Nat.le_of_lt (Nat.lt_pow_succ_log_self hb v)))
      ((Nat.lt_clog_iff_pow_lt hb).2 hlt)

theorem isLeast_clog {b : Nat} (hb : 1 < b) (v : Nat) :
    IsLeast {d | v ≤ b ^ d} (Nat.clog b v) :=
  ⟨Nat.le_pow_clog hb v, fun _ => Nat.clog_le_of_le_pow⟩

theorem exists_eq_size_iff (hn : 0 < n) {v : Nat} :
    (∃ k, v = size n k) ↔ v = branching n ^ Nat.log (branching n) v := by
  constructor
  · intro h
    obtain ⟨k, rfl⟩ := h
    rw [size_eq_pow, Nat.log_pow (two_le_branching hn)]
  · intro h
    exact ⟨_, h.trans (size_eq_pow n _).symm⟩

theorem floor?_branching (hn : n = 2 ∨ n = 3) (v : Nat) :
    floor? v (branching n) = .ok (Nat.log (branching n) v) := by
  rw [← floor_branching]
  rcases hn with rfl | rfl
  · rfl
  · rfl

/-- Rounding up goes by the floored logarithm and the test for powers, both of which answer for
    the two branching factors. -/
theorem ceil?_branching (hn : n = 2 ∨ n = 3) {v : Nat} (hv : v ≤ maxWord) :
    ceil? v (branching n) = .ok (Nat.clog (branching n) v) := by
  have hpos : 0 < n := by omega
  obtain ⟨exact, hexact, hiff⟩ := isPower?_branching hpos (by omega) hv
  rw [exists_eq_size_iff hpos] at hiff
  unfold ceil?
  by_cases hsmall : v ≤ 1
  · rw [if_pos hsmall, Nat.clog_of_right_le_one hsmall]
    rfl
  · rw [if_neg hsmall, floor?_branching hn, ok_bind, hexact, ok_bind,
      clog_eq_ite (two_le_branching hpos) (by omega), ← if_congr hiff rfl rfl]
    rfl

/-- A power of four from the 32nd on is larger than every word, and one of eight all the more. -/
theorem le_branching_pow (hn : n = 2 ∨ n = 3) {v : Nat} (hv : v ≤ maxWord) :
    v ≤ branching n ^ 32 := by
  have hquad : maxWord ≤ branching 2 ^ 32 := by decide
  have hoct : maxWord ≤ branching 3 ^ 32 := by decide
  rcases hn with rfl | rfl
  · exact Nat.le_trans hv hquad
  · exact Nat.le_trans hv hoct

/-- All three functions answer for `v` to the base `b`, and with what the powers of `b` say, however
    large these are. No logarithm of a word comes near the end of the words itself. -/
structure Exact (b v : Nat) : Prop where
  power : ∃ answer, isPower? v b = .ok answer ∧ (answer = true ↔ ∃ k, v = b ^ k)
  below : ∃ k, floor? v b = .ok k ∧ (1 ≤ v → b ^ k ≤ v ∧ v < b ^ (k + 1)) ∧ k ≤ 32
  above : ∃ d, ceil? v b = .ok d ∧ IsLeast {d | v ≤ b ^ d} d ∧ d ≤ 32

/-- **The logarithms of words are exact**, for both branching factors and over the whole range of
    words: the test for powers finds just these, the floored logarithm brackets the word between
    two neighbouring powers, and the rounded one is the least exponent that reaches it. -/
theorem logarithms_exact {b v : Nat} (hb : b = 4 ∨ b = 8) (hv : v ≤ maxWord) : Exact b v := by
  obtain ⟨n, hn, rfl⟩ : ∃ n, (n = 2 ∨ n = 3) ∧ branching n = b := by
    rcases hb with rfl | rfl
    · exact ⟨2, Or.inl rfl, rfl⟩
    · exact ⟨3, Or.inr rfl, rfl⟩
  have hpos : 0 < n := by omega
  have hone : 1 < branching n := two_le_branching hpos
  have hleast : Nat.clog (branching n) v ≤ 32 := Nat.clog_le_of_le_pow (le_branching_pow hn hv)
  constructor
  case power =>
    obtain ⟨answer, hanswer, hiff⟩ := isPower?_branching hpos (by omega) hv
    simp only [size_eq_pow] at hiff
    exact ⟨answer, hanswer, hiff⟩
  case below =>
    refine ⟨_, floor?_branching hn v, fun hv1 => ⟨?_, ?_⟩, ?_⟩
    · exact Nat.pow_log_le_self _ (by omega)
    · exact Nat.lt_pow_succ_log_self hone v
    · exact Nat.le_trans (Nat.log_le_clog _ _) hleast
  case above =>
    exact ⟨_, ceil?_branching hn hv, isLeast_clog hone v, hleast⟩

/-- The largest word lies between two powers of eight, and the upper one is no word any more. -/
theorem largestWord_logarithms_exact : maxWord < 8 ^ 22 ∧ Exact 8 maxWord :=
  ⟨by decide, logarithms_exact (Or.inr rfl) (Nat.le_refl _)⟩

end ChunkedTree.Logarithm
