/-
  Documents in files: a file holds the pretty form of a document, in UTF-8.
-/
import ChunkedTree.Geometry.Document

namespace ChunkedTree

namespace Config

/-- Parameters from what reading a file gave. -/
def ofFile (contents : Except IoError ByteArray) : Except IoError Config :=
  match contents with
  | .error reason => .error reason
  | .ok bytes =>
    match (String.fromUTF8? bytes).bind read? with
    | some c => .ok c
    | none => .error .invalidData

/-- Parameters from the file called `name`. -/
def load (dir : Directory) (name : String) : Except IoError Config := ofFile (dir.read name)

/-- The directory after the parameters are written to the file called `name`. -/
def save (c : Config) (dir : Directory) (name : String) : Except IoError Directory :=
  dir.write name c.pretty.toUTF8

end Config

namespace Geometry

/-- The geometry from what reading a file gave. -/
def ofFile (contents : Except IoError ByteArray) : Except (Failure Error) Geometry :=
  match Config.ofFile contents with
  | .ok c => ofConfig c
  | .error reason => .error (.refused (.io reason))

/-- The geometry from the file called `name`. -/
def load (dir : Directory) (name : String) : Except (Failure Error) Geometry :=
  ofFile (dir.read name)

/-- The directory after the parameters that rebuild the geometry are written to the file called
    `name`. -/
def save (g : Geometry) (dir : Directory) (name : String) : Except Error Directory :=
  (g.parameters.save dir name).mapError .io

end Geometry

end ChunkedTree
