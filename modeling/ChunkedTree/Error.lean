/-
  What can go wrong between a document and the chunks it describes, and how it is told.
-/
import ChunkedTree.Geometry.Build
import ChunkedTree.Storage
import ChunkedTree.Walk

namespace ChunkedTree

inductive Error where
  /-- The parameters are rejected. -/
  | config (reason : Rejection)
  /-- The text is no parameter document. -/
  | json
  | io (reason : IoError)
  /-- The depth cannot be walked. -/
  | walk (reason : WalkError)
deriving DecidableEq, Repr

/-- What is reported. Of a malformed text only the kind is told. -/
def Error.message : Error → String
  | .config reason => s!"Configuration error: {reason.message}"
  | .json => "JSON error:"
  | .io reason => s!"IO error: {reason.message}"
  | .walk reason => s!"Streaming error: {reason.message}"

/-- The same failure, with the reason of a refusal seen as `f` of it. -/
def Failure.map {ε δ : Type} (f : ε → δ) : Failure ε → Failure δ
  | .refused reason => .refused (f reason)
  | .fault cause => .fault cause

end ChunkedTree
