/-
  The parameters from which a chunked tree is built.
-/

namespace ChunkedTree

/-- Named parameters. A number that is not given is 0, a flag that is not given is false. -/
structure Config where
  /-- End of the depths that are never stored. -/
  nullDepth : UInt64 := 0
  /-- End of the depths that are stored without chunks. -/
  baseDepth : UInt64 := 0
  /-- End of the chunked depths; 0 for none. -/
  coldDepth : UInt64 := 0
  /-- Nodes in a chunk of base size, a power of the branching factor. -/
  pointsPerChunk : UInt64 := 0
  /-- 2 or 3. -/
  dimensions : Option UInt64 := none
  /-- Expected number of points, which places the sparse depth. -/
  numPointsHint : UInt64 := 0
  tubular : Option Bool := none
  /-- Let chunks grow with depth past the sparse depth. -/
  dynamicChunks : Bool := false
  /-- Put chunk ids in front of chunk names. -/
  prefixIds : Bool := false
  /-- Depth past which chunks may grow; 0 leaves it to the hint. -/
  sparseDepth : UInt64 := 0
  /-- First depth that exporters write. -/
  startDepth : UInt64 := 0
  /-- Name of the tree shape, from which absent dimensions and an absent tubular flag follow. -/
  shapeName : Option String := none
deriving DecidableEq, Repr, Inhabited

namespace Config

/-- An octree with the given ends of its depth ranges and the given chunk size. -/
def octree (baseDepth coldDepth pointsPerChunk : UInt64) : Config :=
  { baseDepth, coldDepth, pointsPerChunk, dimensions := some 3 }

/-- A quadtree with the given ends of its depth ranges and the given chunk size. -/
def quadtree (baseDepth coldDepth pointsPerChunk : UInt64) : Config :=
  { baseDepth, coldDepth, pointsPerChunk, dimensions := some 2 }

/-- The dimensions, if need be from the name: an octree has 3, all else 2. -/
def treeDimensions (c : Config) : UInt64 :=
  match c.dimensions with
  | some dimensions => dimensions
  | none => if c.shapeName = some "octree" then 3 else 2

/-- The tubular flag, if need be from the name: only a hybrid tree is tubular. -/
def isTubular (c : Config) : Bool :=
  match c.tubular with
  | some tubular => tubular
  | none => c.shapeName == some "hybrid"

end Config

end ChunkedTree
