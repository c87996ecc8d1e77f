/-
  Flat documents: an object whose members are numbers, flags and strings.

  A document has two written forms, a compact one without blanks and a pretty one with a member
  on each line. Both spell the same value.
-/
import ChunkedTree.Json.Value

namespace ChunkedTree.Json

/-- A value without parts. -/
inductive Scalar where
  | natural (n : Nat)
  | bool (b : Bool)
  | string (s : String)
deriving DecidableEq, Repr

/-- Named scalars in order of writing. -/
abbrev Document := List (String × Scalar)

def Scalar.toValue : Scalar → Value
  | .natural n => .natural n
  | .bool b => .bool b
  | .string s => .string (some s)

def Document.toValue (doc : Document) : Value :=
  .object (doc.map fun m => (some m.1, m.2.toValue))

/-! ## Written form -/

/-- A hexadecimal digit in lower case. -/
def hexChar (n : Nat) : Char :=
  if n < 10 then Char.ofNat ('0'.toNat + n) else Char.ofNat ('a'.toNat + (n - 10))

/-- A character inside quotes. Quotes, backslashes and control characters are escaped, the last
    by a letter where there is one. -/
def escape (c : Char) : List Char :=
  if c == '"' then ['\\', '"']
  else if c == '\\' then ['\\', '\\']
  else if c == '\x08' then ['\\', 'b']
  else if c == '\x0c' then ['\\', 'f']
  else if c == '\n' then ['\\', 'n']
  else if c == '\r' then ['\\', 'r']
  else if c == '\t' then ['\\', 't']
  else if c.toNat < 0x20 then ['\\', 'u', '0', '0', hexChar (c.toNat / 16), hexChar (c.toNat % 16)]
  else [c]

def quoted (s : String) : List Char := '"' :: s.toList.flatMap escape ++ ['"']

def Scalar.written : Scalar → List Char
  | .natural n => Nat.toDigits 10 n
  | .bool true => ['t', 'r', 'u', 'e']
  | .bool false => ['f', 'a', 'l', 's', 'e']
  | .string s => quoted s

/-- What stands around the members of a document. -/
structure Layout where
  /-- Before the first member and after every comma. -/
  beforeMember : List Char
  afterColon : List Char
  beforeEnd : List Char

/-- No blanks. -/
def Layout.compact : Layout := ⟨[], [], []⟩

/-- A member on each line, two blanks deep. -/
def Layout.pretty : Layout := ⟨['\n', ' ', ' '], [' '], ['\n']⟩

def Layout.member (layout : Layout) (m : String × Scalar) : List Char :=
  layout.beforeMember ++ quoted m.1 ++ ':' :: layout.afterColon ++ m.2.written

/-- The text of a document; an empty one has no blanks in any layout. -/
def Document.written (layout : Layout) : Document → List Char
  | [] => ['{', '}']
  | doc => '{' :: [','].intercalate (doc.map layout.member) ++ layout.beforeEnd ++ ['}']

def Document.compact (doc : Document) : String := String.ofList (doc.written .compact)

def Document.pretty (doc : Document) : String := String.ofList (doc.written .pretty)

end ChunkedTree.Json
