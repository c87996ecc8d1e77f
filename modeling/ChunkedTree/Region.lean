/-
  Which range a depth or a node falls in.
-/
import ChunkedTree.Geometry

namespace ChunkedTree

inductive Region where
  | null
  | base
  | cold
  | sparse
  /-- Past the last stored depth. -/
  | outOfRange
deriving DecidableEq, Repr

def Region.name : Region → String
  | .null => "Null"
  | .base => "Base"
  | .cold => "Cold"
  | .sparse => "Sparse"
  | .outOfRange => "OutOfRange"

namespace Geometry

variable (g : Geometry)

/-- Depth of the node at `index`. -/
def depthOf (index : Nat) : Nat := Level.depth g.dimensions index

def depthRegion (depth : Nat) : Region :=
  if depth < g.nullEnd then .null
  else if depth < g.baseEnd then .base
  else if g.hasCold && depth < g.coldEnd then
    if g.hasSparse && g.sparseBegin ≤ depth then .sparse else .cold
  else .outOfRange

def nodeRegion (index : Nat) : Region := g.depthRegion (g.depthOf index)

/-- The nodes at `depth` are stored at all. -/
def isStored (depth : Nat) : Bool :=
  match g.depthRegion depth with
  | .null | .outOfRange => false
  | .base | .cold | .sparse => true

def isNullNode (index : Nat) : Bool := index < g.nullIndexEnd

def isBaseNode (index : Nat) : Bool := g.nullIndexEnd ≤ index && index < g.baseIndexEnd

def isColdNode (index : Nat) : Bool :=
  g.hasCold && g.coldIndexBegin ≤ index && index < g.coldIndexEnd

end Geometry

end ChunkedTree
