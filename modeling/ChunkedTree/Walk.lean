/-
  Walking the chunks of one depth.

  Only a depth whose chunks hold no other depth's nodes can be walked; its chunks are then the
  numbers from the first one on, as many as the depth fills.
-/
import ChunkedTree.Log
import ChunkedTree.Numbering

namespace ChunkedTree

/-- Why a depth cannot be walked. -/
inductive WalkError where
  | noColdRegion
  | aboveCold (depth coldBegin : Nat)
  | shared (depth : Nat)
  | tooMany (count depth : Nat)
deriving DecidableEq, Repr

def WalkError.message : WalkError → String
  | .noColdRegion => "structure has no cold region"
  | .aboveCold depth coldBegin => s!"depth {depth} is above the cold depth begin {coldBegin}"
  | .shared depth => s!"depth {depth} shares chunks with neighbouring depths"
  | .tooMany count depth => s!"{count} chunks at depth {depth} exceed u64"

/-- The chunks of one depth that are still to come: those with the numbers from `next` up to, but
    not including, `stop`. -/
structure ChunkWalk where
  geometry : Geometry
  next : Nat
  stop : Nat
deriving DecidableEq, Repr

/-- The order in which workers come to the chunks whose numbers they are handed. -/
structure Schedule where
  order : List Nat → List Nat
  /-- Each of the numbers comes up once. -/
  perm : ∀ numbers, (order numbers).Perm numbers

/-- One after the other, as they are handed out. -/
def Schedule.ascending : Schedule := ⟨id, List.Perm.refl⟩

namespace ChunkWalk

/-- The next chunk and what comes after it, unless there is none. -/
def next? (chunks : ChunkWalk) : Checked (Option (Placement × ChunkWalk)) :=
  if chunks.next < chunks.stop then do
    let p ← chunks.geometry.locateNumber chunks.next
    return some (p, { chunks with next := chunks.next + 1 })
  else return none

/-- Pass over the next `n` chunks. -/
def drop : Nat → ChunkWalk → Checked ChunkWalk
  | 0, chunks => return chunks
  | n + 1, chunks => do
    match ← chunks.next? with
    | some (_, rest) => drop n rest
    | none => return chunks

/-- The next `n` chunks, or as many as there are. -/
def take : Nat → ChunkWalk → Checked (List Placement)
  | 0, _ => return []
  | n + 1, chunks => do
    match ← chunks.next? with
    | some (p, rest) => return p :: (← take n rest)
    | none => return []

/-- All chunks. -/
def toList (chunks : ChunkWalk) : Checked (List Placement) :=
  chunks.take (chunks.stop - chunks.next)

end ChunkWalk

namespace Geometry

variable (g : Geometry)

/-- The chunks at `depth` can be walked. -/
def checkWalkable (depth : Nat) : Except (Failure WalkError) Unit := do
  Failure.unless g.hasCold .noColdRegion
  Failure.unless (g.coldBegin ≤ depth) (.aboveCold depth g.coldBegin)
  let aligned ← (g.isAligned? depth).orFault
  Failure.unless aligned (.shared depth)

/-- The chunks at `depth`, one after the other. -/
def walk (depth : Nat) : Except (Failure WalkError) ChunkWalk := do
  g.checkWalkable depth
  let first ← (g.firstNumber? depth).orFault
  let count ← (g.chunkCount? depth).orFault
  return ⟨g, first, first + count⟩

/-! ## All chunks at once

  Work that is handed to many workers needs a chunk count that fits a word. The workers come to the
  chunks in an order that nobody fixes, but each chunk comes up once. -/

/-- The first chunk number at `depth` and the chunk count, which fits a word. -/
def workRange (depth : Nat) : Except (Failure WalkError) (Nat × Nat) := do
  g.checkWalkable depth
  let count ← (g.chunkCount? depth).orFault
  Failure.unless (count ≤ maxWord) (.tooMany count depth)
  let first ← (g.firstNumber? depth).orFault
  return (first, count)

/-- `f` of every chunk at `depth`, in the order of their numbers. -/
def mapChunks {α : Type} (depth : Nat) (f : Placement → α) :
    Except (Failure WalkError) (List α) := do
  let (first, count) ← g.workRange depth
  let chunks ← ((List.range' first count).mapM g.locateNumber).orFault
  return chunks.map f

/-- Every chunk at `depth` handed to `visit` once, in the order of the schedule, along with what the
    visits so far have made of `start`. -/
def visitChunks {σ : Type} (depth : Nat) (visit : σ → Placement → σ) (start : σ)
    (schedule : Schedule := .ascending) : Except (Failure WalkError) σ := do
  let (first, count) ← g.workRange depth
  let step (s : σ) (number : Nat) : Checked σ := do
    let p ← g.locateNumber number
    return visit s p
  ((schedule.order (List.range' first count)).foldlM step start).orFault

/-- What work on all chunks at `depth` logs before it starts; `verb` says what the work is. -/
def workLog (verb : String) (depth : Nat) : List LogLine :=
  match g.workRange depth with
  | .ok (_, count) => [⟨.debug, s!"{verb} {count} chunks at depth {depth}"⟩]
  | .error _ => []

def mapLog (depth : Nat) : List LogLine := g.workLog "Mapping" depth

def visitLog (depth : Nat) : List LogLine := g.workLog "Visiting" depth

end Geometry

end ChunkedTree
