/-
  Where a node lives in chunked storage.

  Up to the sparse depth, and everywhere in a tree that is not dynamic, chunks of base size follow
  each other from the first chunked node on, across depths. Past the sparse depth of a dynamic
  tree every depth has the same number of chunks, larger by the branching factor than those of
  the depth above, and they start anew with the depth.
-/
import ChunkedTree.Region

namespace ChunkedTree

/-- The storage location of one node. -/
@[ext]
structure Placement where
  /-- The node. -/
  index : Nat
  depth : Nat
  /-- Index of the first node at the node's depth. -/
  levelStart : Nat
  /-- Index of the first node in the node's chunk, by which the chunk is named. -/
  chunkStart : Nat
  /-- Position of the node within its chunk. -/
  offset : Nat
  /-- Nodes in the chunk. -/
  capacity : Nat
  /-- Ordinal of the chunk among all chunks. -/
  number : Nat
deriving DecidableEq, Repr, Inhabited

/-- The node is the first one in its chunk. -/
def Placement.isChunkStart (p : Placement) : Bool := p.offset == 0

namespace Geometry

variable (g : Geometry)

/-- Placement in chunks of base size, counted from the first chunked node. -/
def locateFixed (index depth levelStart : Nat) : Checked Placement := do
  let distance ← Checked.sub index g.coldIndexBegin
  let (number, offset) ← Checked.divMod distance g.capacity
  let chunkStart := g.coldIndexBegin + number * g.capacity
  return { index, depth, levelStart, chunkStart, offset, capacity := g.capacity, number }

/-- Placement in the larger chunks past the sparse depth, counted from the first node at the
    node's depth. The number goes on after the chunks of base size above the sparse depth, as many
    depths further as the node lies below it. -/
def locateSparse (index depth levelStart : Nat) : Checked Placement := do
  let sparseDepths ← Checked.sub depth g.sparseBegin
  let growth ← Level.power? g.dimensions sparseDepths
  let capacity := g.capacity * growth
  let coldSpan ← Checked.sub g.sparseIndexBegin g.coldIndexBegin
  let coldChunks ← Checked.div coldSpan g.capacity
  let before := coldChunks + g.chunksPerSparseDepth * sparseDepths
  let distance ← Checked.sub index levelStart
  let (place, offset) ← Checked.divMod distance capacity
  let chunkStart := levelStart + place * capacity
  return { index, depth, levelStart, chunkStart, offset, capacity, number := before + place }

/-- Locate the node at `index`, which has to lie in or past the chunked range. -/
def locate (index : Nat) : Checked Placement := do
  Checked.require g.hasCold .coldRegion
  Checked.require (g.coldIndexBegin ≤ index) (.chunked index)
  let depth := g.depthOf index
  let levelStart ← Level.start? g.dimensions depth
  if !g.dynamic || levelStart ≤ g.sparseIndexBegin then
    g.locateFixed index depth levelStart
  else
    g.locateSparse index depth levelStart

end Geometry

end ChunkedTree
