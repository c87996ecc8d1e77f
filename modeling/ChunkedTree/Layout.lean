/-
  The chunk layout of a tree, one row for each chunked depth.
-/
import ChunkedTree.Log
import ChunkedTree.Numbering

namespace ChunkedTree

/-- The chunks of one depth. -/
structure LayoutRow where
  depth : Nat
  region : Region
  firstNumber : Nat
  /-- Chunks that hold any node at this depth, shared ones included. -/
  count : Nat
  /-- Nodes in a chunk. -/
  capacity : Nat
  /-- A chunk here also holds nodes of a neighbouring depth. -/
  shared : Bool
deriving DecidableEq, Repr

namespace Geometry

variable (g : Geometry)

/-- The row of a chunked depth. -/
def layoutRow? (depth : Nat) : Checked LayoutRow := do
  let start ← Level.start? g.dimensions depth
  let first ← g.locate start
  let range ← g.numberRange? depth
  let aligned ← g.isAligned? depth
  let count ← Checked.sub range.stop range.first
  return { depth, region := g.depthRegion depth, firstNumber := range.first, count,
           capacity := first.capacity, shared := !aligned }

/-- The rows of `count` depths from `depth` on. -/
def rows? : Nat → Nat → Checked (List LayoutRow)
  | 0, _ => return []
  | count + 1, depth => do
    let row ← g.layoutRow? depth
    let rows ← rows? count (depth + 1)
    return row :: rows

/-- The rows of the chunked depths from `begin` up to, but not including, `stop`. -/
def layout? (begin stop : Nat) : Checked (List LayoutRow) :=
  let first := max begin g.coldBegin
  if g.hasCold then g.rows? (stop - first) first else return []

theorem rows?_eq_mapM (count depth : Nat) :
    g.rows? count depth = (List.range' depth count).mapM g.layoutRow? := by
  induction count generalizing depth with
  | zero => rfl
  | succ count ih => simp [rows?, List.range'_succ, ih]

/-! ## What is logged -/

/-- The line that the row of `depth` logs, once the chunk numbers are known. -/
def layoutRowLog (depth : Nat) : Option LogLine :=
  match g.numberRange? depth with
  | .ok range => some ⟨.trace, s!"Depth {depth}: chunks [{range.first}, {range.stop})"⟩
  | .error _ => none

/-- The lines of `count` depths from `depth` on, up to the first one without chunk numbers. -/
def rowsLog : Nat → Nat → List LogLine
  | 0, _ => []
  | count + 1, depth =>
    match g.layoutRowLog depth with
    | some line => line :: rowsLog count (depth + 1)
    | none => []

/-- What the layout logs. -/
def layoutLog (begin stop : Nat) : List LogLine :=
  let first := max begin g.coldBegin
  if g.hasCold then g.rowsLog (stop - first) first else []

end Geometry

end ChunkedTree
