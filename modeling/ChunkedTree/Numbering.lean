/-
  Chunk numbers: from a number back to its chunk, and the numbers in use at a depth.
-/
import ChunkedTree.Placement

namespace ChunkedTree

/-- Chunk numbers from `first` up to, but not including, `stop`. -/
structure NumberRange where
  first : Nat
  stop : Nat
deriving DecidableEq, Repr

namespace Geometry

variable (g : Geometry)

/-! ## From a number to its chunk -/

/-- Index of the first node in the chunk with the given number, if it lies past the sparse depth
    of a dynamic tree; `beyond` counts from the first such chunk. -/
def sparseChunkStart? (number beyond : Nat) : Checked Nat := do
  let (sparseDepths, place) ← Checked.divMod beyond g.chunksPerSparseDepth
  Checked.require (sparseDepths ≤ maxWord) (.wordDepth number)
  let depth := min (g.sparseBegin + 1 + sparseDepths) maxWord
  let levelStart ← Level.start? g.dimensions depth
  let size ← Level.size? g.dimensions depth
  let capacity ← Checked.div size g.chunksPerSparseDepth
  return levelStart + place * capacity

/-- Index of the first node in the chunk with the given number. The sparse depth itself still has
    chunks of base size. -/
def chunkStart? (number : Nat) : Checked Nat :=
  if g.dynamic then do
    let sparseEnd ← Checked.word (g.sparseBegin + 1)
    let fixedEnd ← Level.start? g.dimensions sparseEnd
    let fixedSpan ← Checked.sub fixedEnd g.coldIndexBegin
    let fixedChunks ← Checked.div fixedSpan g.capacity
    if number < fixedChunks then return g.coldIndexBegin + number * g.capacity
    else g.sparseChunkStart? number (number - fixedChunks)
  else return g.coldIndexBegin + number * g.capacity

/-- Locate the first node of the chunk with the given number. -/
def locateNumber (number : Nat) : Checked Placement := do
  let start ← g.chunkStart? number
  g.locate start

/-! ## Numbers at a depth -/

/-- Index of the first node of the depth below `depth`. -/
def nextLevelStart? (depth : Nat) : Checked Nat := do
  let next ← Checked.word (depth + 1)
  Level.start? g.dimensions next

/-- Number of chunks that the nodes at `depth` fill. -/
def chunkCount? (depth : Nat) : Checked Nat :=
  if g.capacity = 0 then return 0
  else if !g.dynamic || depth ≤ g.sparseBegin then do
    let stop ← g.nextLevelStart? depth
    let start ← Level.start? g.dimensions depth
    let span ← Checked.sub stop start
    Checked.div span g.capacity
  else do
    let size ← Level.size? g.dimensions g.sparseBegin
    Checked.div size g.capacity

/-- Number of the chunk that holds the first node at `depth`. -/
def firstNumber? (depth : Nat) : Checked Nat := do
  let start ← Level.start? g.dimensions depth
  let p ← g.locate start
  return p.number

/-- Numbers of the chunks that hold any node at `depth`, those shared with a neighbouring depth
    included. -/
def numberRange? (depth : Nat) : Checked NumberRange := do
  let start ← Level.start? g.dimensions depth
  let stop ← g.nextLevelStart? depth
  let last ← Checked.sub stop 1
  let firstPlacement ← g.locate start
  let lastPlacement ← g.locate last
  return ⟨firstPlacement.number, lastPlacement.number + 1⟩

/-- The chunks at `depth` hold nodes of that depth only: its first node and the first node of the
    next depth both start a chunk. -/
def isAligned? (depth : Nat) : Checked Bool := do
  let start ← Level.start? g.dimensions depth
  let p ← g.locate start
  if p.isChunkStart then
    let stop ← g.nextLevelStart? depth
    let q ← g.locate stop
    return q.isChunkStart
  else return false

end Geometry

end ChunkedTree
