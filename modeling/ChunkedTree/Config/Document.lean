/-
  The parameter document: parameters as JSON text.

  A document is an object with up to twelve known members, or an array of up to twelve values in
  the order of `Field.all`. What is absent takes its default. Members with other names are
  ignored; a known member must not stand there twice.
-/
import ChunkedTree.Config
import ChunkedTree.Json.Document
import ChunkedTree.Json.Reader

namespace ChunkedTree

open Json

/-- The known members of a document. -/
inductive Field where
  | nullDepth
  | baseDepth
  | coldDepth
  | pointsPerChunk
  | dimensions
  | numPointsHint
  | tubular
  | dynamicChunks
  | prefixIds
  | sparseDepth
  | startDepth
  | shapeName
deriving DecidableEq, Repr

namespace Field

/-- All fields, in order of writing. -/
def all : List Field :=
  [.nullDepth, .baseDepth, .coldDepth, .pointsPerChunk, .dimensions, .numPointsHint, .tubular,
    .dynamicChunks, .prefixIds, .sparseDepth, .startDepth, .shapeName]

/-- The name of a field in a document. -/
def key : Field → String
  | .nullDepth => "nullDepth"
  | .baseDepth => "baseDepth"
  | .coldDepth => "coldDepth"
  | .pointsPerChunk => "pointsPerChunk"
  | .dimensions => "dimensions"
  | .numPointsHint => "numPointsHint"
  | .tubular => "tubular"
  | .dynamicChunks => "dynamicChunks"
  | .prefixIds => "prefixIds"
  | .sparseDepth => "sparseDepth"
  | .startDepth => "startDepth"
  | .shapeName => "type"

/-- The place of a field in an array. -/
def position (f : Field) : Nat := all.idxOf f

end Field

/-! ## Writing -/

namespace Config

/-- What is written for a field. Absent dimensions, an absent tubular flag, an absent name and a
    start depth of 0 are left out. -/
def entry (c : Config) : Field → Option Scalar
  | .nullDepth => some (.natural c.nullDepth.toNat)
  | .baseDepth => some (.natural c.baseDepth.toNat)
  | .coldDepth => some (.natural c.coldDepth.toNat)
  | .pointsPerChunk => some (.natural c.pointsPerChunk.toNat)
  | .dimensions => c.dimensions.map fun d => .natural d.toNat
  | .numPointsHint => some (.natural c.numPointsHint.toNat)
  | .tubular => c.tubular.map .bool
  | .dynamicChunks => some (.bool c.dynamicChunks)
  | .prefixIds => some (.bool c.prefixIds)
  | .sparseDepth => some (.natural c.sparseDepth.toNat)
  | .startDepth => if c.startDepth = 0 then none else some (.natural c.startDepth.toNat)
  | .shapeName => c.shapeName.map .string

/-- The document that records the parameters. -/
def document (c : Config) : Document :=
  Field.all.filterMap fun f => (c.entry f).map fun s => (f.key, s)

def toValue (c : Config) : Value := c.document.toValue

/-- The document on one line, without blanks. -/
def compact (c : Config) : String := c.document.compact

/-- The document with a member on each line. -/
def pretty (c : Config) : String := c.document.pretty

end Config

/-! ## Reading -/

namespace Json.Value

/-- A number that fits a word, written with digits alone. -/
def word? : Value → Option UInt64
  | .natural n => if n < UInt64.size then some (.ofNat n) else none
  | _ => none

def flag? : Value → Option Bool
  | .bool b => some b
  | _ => none

def text? : Value → Option String
  | .string text => text
  | _ => none

end Json.Value

/-- A field that has a default: `read` has to accept what is there. -/
def Field.required {α : Type} (read : Value → Option α) (default : α) :
    Option Value → Option α
  | none => some default
  | some v => read v

/-- A field that may be absent, and may be null instead. -/
def Field.optional {α : Type} (read : Value → Option α) : Option Value → Option (Option α)
  | none => some none
  | some .null => some none
  | some v => (read v).map some

namespace Config

/-- Parameters from the value, if there is one, that stands for each field. -/
def ofFields? (value : Field → Option Value) : Option Config := do
  let nullDepth ← Field.required Value.word? 0 (value .nullDepth)
  let baseDepth ← Field.required Value.word? 0 (value .baseDepth)
  let coldDepth ← Field.required Value.word? 0 (value .coldDepth)
  let pointsPerChunk ← Field.required Value.word? 0 (value .pointsPerChunk)
  let dimensions ← Field.optional Value.word? (value .dimensions)
  let numPointsHint ← Field.required Value.word? 0 (value .numPointsHint)
  let tubular ← Field.optional Value.flag? (value .tubular)
  let dynamicChunks ← Field.required Value.flag? false (value .dynamicChunks)
  let prefixIds ← Field.required Value.flag? false (value .prefixIds)
  let sparseDepth ← Field.required Value.word? 0 (value .sparseDepth)
  let startDepth ← Field.required Value.word? 0 (value .startDepth)
  let shapeName ← Field.optional Value.text? (value .shapeName)
  return { nullDepth, baseDepth, coldDepth, pointsPerChunk, dimensions, numPointsHint, tubular,
           dynamicChunks, prefixIds, sparseDepth, startDepth, shapeName }

/-- Every member has a name that stands for a text, and no known name stands there twice. -/
def wellNamed (members : List (Text × Value)) : Bool :=
  members.all (fun m => m.1.isSome) && Field.all.all (fun f => (sole? members f.key).isSome)

/-- Parameters from a document that is already read as a value. -/
def ofValue? : Value → Option Config
  | .object members =>
    if wellNamed members then ofFields? fun f => (sole? members f.key).join else none
  | .array items =>
    if items.length ≤ Field.all.length then ofFields? fun f => items[f.position]? else none
  | _ => none

/-- Parameters from the document at the front of a text, and the tokens after it. -/
def ofTokens? (ts : List Token) : Option (Config × List Token) :=
  match Value.ofTokens? ts with
  | some (v, rest) => (ofValue? v).map fun c => (c, rest)
  | none => none

/-- Parameters from a text that is a document as a whole. -/
def read? (text : String) : Option Config :=
  match ofTokens? (tokens text) with
  | some (c, []) => some c
  | _ => none

end Config

end ChunkedTree
