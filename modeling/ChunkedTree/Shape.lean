/-
  The two tree shapes that are stored: four children per node in the plane, eight in space.
-/
import ChunkedTree.Level

namespace ChunkedTree

inductive Shape where
  | quadtree
  | octree
deriving DecidableEq, Repr, Inhabited

namespace Shape

def dimensions : Shape → Nat
  | .quadtree => 2
  | .octree => 3

/-- Children per node: 4 or 8. -/
def factor (s : Shape) : Nat := Level.branching s.dimensions

def ofDimensions? : Nat → Option Shape
  | 2 => some .quadtree
  | 3 => some .octree
  | _ => none

theorem ofDimensions?_eq_some_iff {n : Nat} {s : Shape} :
    ofDimensions? n = some s ↔ n = s.dimensions := by
  cases s <;> unfold ofDimensions? <;> split <;> simp_all [dimensions]

end Shape

end ChunkedTree
