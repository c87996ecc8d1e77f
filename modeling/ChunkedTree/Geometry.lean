/-
  The geometry of a chunked tree.

  Depths fall into half-open ranges: null `[0, nullEnd)`, never stored; base `[nullEnd, baseEnd)`,
  stored without chunks; cold `[baseEnd, coldEnd)`, stored in chunks. A chunk holds `capacity`
  nodes, except that in a dynamic tree chunks grow by the branching factor with every depth past
  `sparseBegin`.

  Only what cannot be derived is stored, so two geometries are equal when these values are.
-/
import ChunkedTree.Logarithm
import ChunkedTree.Shape

namespace ChunkedTree

structure Geometry where
  shape : Shape
  nullEnd : Nat
  baseEnd : Nat
  /-- 0 if there is no chunked range. -/
  coldEnd : Nat
  sparseBegin : Nat
  /-- A sparse range was asked for, or follows from a hint or from dynamic chunks. -/
  hasSparse : Bool
  /-- Nodes in a chunk of base size. -/
  capacity : Nat
  /-- Chunks grow past the sparse depth. -/
  dynamic : Bool
  pointHint : Nat
  startDepth : Nat
  tubular : Bool
  prefixIds : Bool
deriving DecidableEq, Repr, Inhabited

namespace Geometry

variable (g : Geometry)

/-- 2 or 3. -/
def dimensions : Nat := g.shape.dimensions

/-- Children per node. -/
def factor : Nat := g.shape.factor

/-! ## Depth ranges -/

/-- The chunked depths begin where the base depths end. -/
def coldBegin : Nat := g.baseEnd

def hasNull : Bool := 0 < g.nullEnd

def hasBase : Bool := g.nullEnd < g.baseEnd

def hasCold : Bool := g.coldBegin < g.coldEnd

/-! ## The same boundaries as node indexes -/

/-- Index of the first node at `depth`. -/
def levelStart (depth : Nat) : Nat := Level.start g.dimensions depth

def nullIndexEnd : Nat := g.levelStart g.nullEnd

def baseIndexEnd : Nat := g.levelStart g.baseEnd

def coldIndexBegin : Nat := g.levelStart g.coldBegin

/-- Without a chunked range this is the root, so no index lies below it. -/
def coldIndexEnd : Nat := g.levelStart g.coldEnd

def sparseIndexBegin : Nat := g.levelStart g.sparseBegin

/-! ## Chunk sizes -/

/-- Depth whose nodes fill one chunk of base size. -/
def nominalDepth : Nat := Logarithm.floor g.capacity g.factor

def nominalIndex : Nat := g.levelStart g.nominalDepth

/-- Number of chunks at each depth past the sparse depth of a dynamic tree; 1 for others. -/
def chunksPerSparseDepth : Nat :=
  if g.dynamic then Level.size g.dimensions (g.sparseBegin - g.nominalDepth) else 1

end Geometry

end ChunkedTree
