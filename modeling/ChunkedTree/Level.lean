/-
  Node numbering of a complete tree in which every node has `2 ^ dimensions` children.

  Nodes are numbered breadth first over the whole tree: the root is 0, its children follow, then
  theirs. A depth owns the indexes from `Level.start` of that depth up to, but not including,
  `Level.start` of the next one. The exact functions come first; the checked ones, with a
  question mark, are what a machine computes whose exponents are words.
-/
import ChunkedTree.Checked

namespace ChunkedTree.Level

/-- Children per node: 2 to the power of `dimensions`. -/
def branching (dimensions : Nat) : Nat := 1 <<< dimensions

/-- Number of nodes at exactly `depth`: the branching factor to the power of `depth`. -/
def size (dimensions depth : Nat) : Nat := 1 <<< (depth * dimensions)

/-- Number of nodes at all shallower depths, which is the index of the first node at `depth`. -/
def start (dimensions depth : Nat) : Nat :=
  (size dimensions depth - 1) / (branching dimensions - 1)

/-- Depth of the node at `index`: `index * (branching - 1) + 1` has the same base-`branching`
    logarithm as the node count of its depth. -/
def depth (dimensions index : Nat) : Nat :=
  (index * (branching dimensions - 1) + 1).log2 / dimensions

/-! ## With machine words for dimensions, factors and depths -/

/-- The branching factor as a word. -/
def branching? (dimensions : Nat) : Checked Nat :=
  if dimensions < 64 then .ok (branching dimensions) else .error .overflow

/-- `2 ^ (exponent * bits)`; the product in the exponent is a word. -/
def power? (bits exponent : Nat) : Checked Nat := do
  let shift ← Checked.word (exponent * bits)
  return 1 <<< shift

/-- Number of nodes at exactly `depth`. -/
def size? (dimensions depth : Nat) : Checked Nat := power? dimensions depth

/-- Index of the first node at `depth`. -/
def start? (dimensions depth : Nat) : Checked Nat := do
  let size ← size? dimensions depth
  let factor ← branching? dimensions
  Checked.div (size - 1) (factor - 1)

/-- Dimensions of a branching factor that lookups accept. -/
def dimensionsOf? : Nat → Option Nat
  | 4 => some 2
  | 8 => some 3
  | _ => none

/-- Depth of the node at `index` in a tree with the given branching factor, 4 or 8. -/
def depth? (factor index : Nat) : Checked Nat :=
  match dimensionsOf? factor with
  | some dimensions => .ok (depth dimensions index)
  | none => .error (.precondition .branching)

end ChunkedTree.Level
