/-
  Geometries from documents: reading a document builds the geometry that it describes.
-/
import ChunkedTree.Config.Document
import ChunkedTree.Error

namespace ChunkedTree.Geometry

/-- The geometry that the parameters describe. -/
def ofConfig (c : Config) : Except (Failure Error) Geometry :=
  c.build.mapError (Failure.map .config)

/-- The geometry of a document that is already read as a value. -/
def ofValue (v : Json.Value) : Except (Failure Error) Geometry :=
  match Config.ofValue? v with
  | some c => ofConfig c
  | none => .error (.refused .json)

/-- The geometry of a document. -/
def ofText (text : String) : Except (Failure Error) Geometry :=
  match Config.read? text with
  | some c => ofConfig c
  | none => .error (.refused .json)

/-! ## Building while reading -/

/-- Why the front of a text is no geometry. -/
inductive ParseError where
  | malformed
  /-- The parameters are rejected. -/
  | rejected (reason : Rejection)
deriving DecidableEq, Repr

/-- What is reported. A rejection is told in its own words; of a malformed text nothing is told. -/
def ParseError.message : ParseError → Option String
  | .malformed => none
  | .rejected reason => some reason.message

/-- The geometry of a text that is read from the front: parameters are rejected before anything
    is known about the text that follows them, which has to be blank. -/
def parse (text : String) : Except (Failure ParseError) Geometry :=
  match Config.ofTokens? (Json.tokens text) with
  | none => .error (.refused .malformed)
  | some (c, rest) => do
    let g ← c.build.mapError (Failure.map .rejected)
    Failure.unless rest.isEmpty .malformed
    return g

end ChunkedTree.Geometry
