/-
  Whole logarithms of words to the bases 4 and 8.

  Both bases are powers of two, so the logarithms are quotients of bit counts and stay exact over
  the whole range of words.
-/
import ChunkedTree.Checked

namespace ChunkedTree.Logarithm

/-- Number of zero bits below the lowest one, in a word of 64 bits. -/
def trailingZeros (n : Nat) : Nat := go 64 n
where
  /-- At most `bits` zeros are counted. -/
  go : Nat → Nat → Nat
    | 0, _ => 0
    | bits + 1, n => if n % 2 = 1 then 0 else go bits (n / 2) + 1

/-- `n` is a power of two. -/
def isPowerOfTwo (n : Nat) : Bool := n != 0 && n == 1 <<< n.log2

/-- Floored logarithm of `value` to the base `n`, a power of two; zero maps to zero. -/
def floor (value n : Nat) : Nat := value.log2 / n.log2

/-- The floored logarithm to the base `n`, which has to be 4 or 8. -/
def floor? (value n : Nat) : Checked Nat := do
  Checked.require (n == 4 || n == 8) .branching
  return floor value n

/-- `value` is a power of `n`: it is a power of two, and its exponent is a multiple of the one
    in `n`. -/
def isPower? (value n : Nat) : Checked Bool :=
  if isPowerOfTwo value then do
    let (_, rest) ← Checked.divMod (trailingZeros value) (trailingZeros n)
    return rest == 0
  else return false

/-- Least `d` with `n ^ d ≥ value`. -/
def ceil? (value n : Nat) : Checked Nat :=
  if value ≤ 1 then return 0
  else do
    let below ← floor? value n
    let exact ← isPower? value n
    return if exact then below else below + 1

end ChunkedTree.Logarithm
