/-
  Building a geometry from parameters, and the parameters that rebuild it.

  The checks come in a fixed order: dimensions, base depth, the hint's arithmetic, chunk size,
  sparse depth, and last that every boundary has a node index whose exponent is a word.
-/
import ChunkedTree.Config
import ChunkedTree.Geometry
import ChunkedTree.Log
import ChunkedTree.Logarithm

namespace ChunkedTree

/-- Why parameters are rejected. -/
inductive Rejection where
  | shallowBase (baseDepth : Nat)
  | noChunkSize
  | badChunkSize (pointsPerChunk factor : Nat)
  | badDimensions (dimensions : Nat)
  | shallowSparse (sparseDepth nominalDepth : Nat)
deriving DecidableEq, Repr

def Rejection.message : Rejection → String
  | .shallowBase baseDepth => s!"Base depth too small: {baseDepth} (minimum is 4)"
  | .noChunkSize => "Points per chunk not specified, but a cold depth was given"
  | .badChunkSize pointsPerChunk factor =>
    s!"Invalid chunk specification {pointsPerChunk} - " ++
      s!"must be of the form 4^n for quadtree, or 8^n for octree (factor {factor})"
  | .badDimensions dimensions => s!"Invalid dimensions: {dimensions} (expected 2 or 3)"
  | .shallowSparse sparseDepth nominalDepth =>
    s!"Sparse depth {sparseDepth} is shallower than the nominal chunk depth {nominalDepth}"

/-! ## Boundaries -/

namespace Geometry

variable (g : Geometry)

/-- The number of chunks at each depth past the sparse one, as a power with an exponent that has to
    be a word. -/
def chunksPerSparseDepth? : Checked Nat :=
  if g.dynamic then Level.size? g.dimensions (g.sparseBegin - g.nominalDepth) else return 1

/-- The ends of the ranges, the depth past which chunks may grow, and the one whose nodes fill a
    chunk. -/
def boundaryDepths : List Nat := [g.nullEnd, g.baseEnd, g.coldEnd, g.sparseBegin, g.nominalDepth]

/-- Indexes of the first nodes at these depths. -/
def boundaryIndexes? : Checked (List Nat) := g.boundaryDepths.mapM (Level.start? g.dimensions)

/-- The powers behind the boundaries have exponents that are words. -/
def checkBoundaries : Checked Unit := do
  let _ ← g.chunksPerSparseDepth?
  let _ ← g.boundaryIndexes?

end Geometry

namespace Config

/-! ## Depths -/

/-- The base depths end no earlier than the null depths. -/
def baseEnd (c : Config) : Nat := max c.nullDepth.toNat c.baseDepth.toNat

/-- The chunked depths end no earlier than they begin, or there are none. -/
def coldEnd (c : Config) : Nat :=
  if c.coldDepth = 0 then 0 else max c.baseEnd c.coldDepth.toNat

/-- The sparse depth follows from the hint. -/
def isHinted (c : Config) : Bool := c.numPointsHint != 0 && c.sparseDepth == 0

/-- The least depth that can hold the hinted number of points, no shallower than the chunked
    depths, and then 15 percent of headroom, rounded up. -/
def hintedDepth? (c : Config) (shape : Shape) : Checked Nat := do
  let least ← Logarithm.ceil? c.numPointsHint.toNat shape.factor
  let percent ← Checked.word (max least c.baseEnd * 115)
  return (percent + 99) / 100

def sparseBegin? (c : Config) (shape : Shape) : Checked Nat :=
  if c.isHinted then c.hintedDepth? shape else .ok (max c.sparseDepth.toNat c.baseEnd)

/-! ## Building -/

/-- The base depths have to reach this far. -/
def minBaseEnd : Nat := 4

def shape? (c : Config) : Except (Failure Rejection) Shape :=
  match Shape.ofDimensions? c.treeDimensions.toNat with
  | some shape => .ok shape
  | none => .error (.refused (.badDimensions c.treeDimensions.toNat))

/-- Where there are chunks their size has to be a power of the branching factor. -/
def checkCapacity (capacity factor : Nat) : Except (Failure Rejection) Unit := do
  Failure.unless (capacity != 0) .noChunkSize
  let exact ← (Logarithm.isPower? capacity factor).orFault
  Failure.unless exact (.badChunkSize capacity factor)

/-- The geometry that the parameters describe, before any check on chunks. -/
def geometry (c : Config) (shape : Shape) (sparseBegin : Nat) : Geometry where
  shape := shape
  nullEnd := c.nullDepth.toNat
  baseEnd := c.baseEnd
  coldEnd := c.coldEnd
  sparseBegin := sparseBegin
  hasSparse := c.sparseDepth != 0 || c.isHinted || c.dynamicChunks
  capacity := c.pointsPerChunk.toNat
  dynamic := c.dynamicChunks
  pointHint := c.numPointsHint.toNat
  startDepth := c.startDepth.toNat
  tubular := c.isTubular
  prefixIds := c.prefixIds

/-- Build a geometry, or say why there is none. -/
def build (c : Config) : Except (Failure Rejection) Geometry := do
  let shape ← c.shape?
  Failure.unless (minBaseEnd ≤ c.baseEnd) (.shallowBase c.baseEnd)
  let sparseBegin ← (c.sparseBegin? shape).orFault
  let g := c.geometry shape sparseBegin
  if g.hasCold || g.dynamic then
    checkCapacity g.capacity g.factor
  if g.dynamic then
    Failure.unless (g.nominalDepth ≤ g.sparseBegin)
      (.shallowSparse g.sparseBegin g.nominalDepth)
  g.checkBoundaries.orFault
  return g

/-- What building `g` logs: the sparse depth, if it follows from the hint, and the boundaries. -/
def buildLog (c : Config) (g : Geometry) : List LogLine :=
  let derived : LogLine :=
    ⟨.debug, s!"Derived sparse depth {g.sparseBegin} from {g.pointHint} point hint"⟩
  let dynamic := if g.dynamic then " (dynamic)" else ""
  let boundaries : LogLine :=
    ⟨.debug, s!"Structure: null [0, {g.nullEnd}), base [{g.nullEnd}, {g.baseEnd}), " ++
      s!"cold [{g.coldBegin}, {g.coldEnd}), sparse {g.sparseBegin}{dynamic}, " ++
      s!"{g.capacity} points per chunk"⟩
  if c.isHinted then [derived, boundaries] else [boundaries]

end Config

/-- Parameters that rebuild the geometry. -/
def Geometry.parameters (g : Geometry) : Config where
  nullDepth := .ofNat g.nullEnd
  baseDepth := .ofNat g.baseEnd
  coldDepth := .ofNat g.coldEnd
  pointsPerChunk := .ofNat g.capacity
  dimensions := some (.ofNat g.dimensions)
  numPointsHint := .ofNat g.pointHint
  tubular := some g.tubular
  dynamicChunks := g.dynamic
  prefixIds := g.prefixIds
  sparseDepth := if g.hasSparse then .ofNat g.sparseBegin else 0
  startDepth := .ofNat g.startDepth
  shapeName := none

end ChunkedTree
