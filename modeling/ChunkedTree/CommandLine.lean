/-
  The command line: a table of how a document chunks each depth, and on request the place of one
  node.

  `CommandLine.run` decides what the answer is; `Answer.exitCode`, `Answer.output` and
  `Answer.log` say how it is told.
-/
import ChunkedTree.Geometry.File
import ChunkedTree.Layout

namespace ChunkedTree.CommandLine

/-! ## Arguments -/

/-- The argument after the first occurrence of `flag`. -/
def valueOf? (flag : String) : List String → Option String
  | [] => none
  | arg :: rest => if arg == flag then rest.head? else valueOf? flag rest

/-- The number that decimal digits spell, if there is at least one and nothing else. -/
def decimal? (cs : List Char) : Option Nat :=
  if cs != [] && cs.all Char.isDigit then some (Json.ofDigits cs) else none

/-- A word: digits, perhaps after a plus sign. -/
def word? (arg : String) : Option Nat :=
  let digits := match arg.toList with
    | '+' :: cs => cs
    | cs => cs
  match decimal? digits with
  | some n => if n ≤ maxWord then some n else none
  | none => none

/-- A node index: perhaps a plus sign, then a digit, then digits and underscores. -/
def index? (arg : String) : Option Nat :=
  let digits := match arg.toList with
    | '+' :: cs => cs
    | cs => cs
  if digits.head? == some '_' then none else decimal? (digits.filter (· != '_'))

/-! ## Answers -/

/-- What is said about one node. -/
inductive NodeAnswer where
  /-- The argument is no node index. -/
  | invalid (arg : String)
  | notChunked (index : Nat) (region : Region)
  | located (p : Placement)
deriving DecidableEq, Repr

inductive Answer where
  | missingConfig
  | notLoaded (path : String) (reason : Error)
  | nothingChunked (path : String) (g : Geometry)
  | table (path : String) (g : Geometry) (rows : List LayoutRow) (node : Option NodeAnswer)
  /-- A computation faulted after `output` was printed. -/
  | faulted (output : String)

/-- What is said about the node that `arg` names. -/
def nodeAnswer (g : Geometry) (arg : String) : Checked NodeAnswer :=
  match index? arg with
  | none => return .invalid arg
  | some index =>
    if index < g.coldIndexBegin then return .notChunked index (g.nodeRegion index)
    else return .located (← g.locate index)

/-! ## Text -/

/-- Blanks in front, up to `width` characters. -/
def alignRight (width : Nat) (s : String) : String :=
  String.ofList (List.replicate (width - s.length) ' ') ++ s

/-- Blanks behind, up to `width` characters. -/
def alignLeft (width : Nat) (s : String) : String :=
  s ++ String.ofList (List.replicate (width - s.length) ' ')

/-- Lines as a text; each one ends with a line break. -/
def unlines (lines : List String) : String := String.join (lines.map (· ++ "\n"))

def headerLines (path : String) (g : Geometry) : List String :=
  let sparse := s!"Sparse:     {g.sparseBegin}+" ++ if g.dynamic then " (dynamic)" else ""
  ["=== Chunk Layout ===",
   s!"Config:     {path}",
   s!"Dimensions: {g.dimensions} (factor {g.factor})",
   s!"Null:       [0, {g.nullEnd})",
   s!"Base:       [{g.nullEnd}, {g.baseEnd})",
   s!"Cold:       [{g.coldBegin}, {g.coldEnd})"] ++
  (if g.hasSparse then [sparse] else []) ++
  [s!"Chunk size: {g.capacity}", ""]

def tableLine (depth region first count capacity shared : String) : String :=
  String.intercalate "  "
    [alignRight 6 depth, alignLeft 8 region, alignRight 24 first, alignRight 24 count,
      alignRight 24 capacity, shared]

def titleLine : String := tableLine "depth" "region" "first" "chunks" "points/chunk" "shared"

def rowLine (row : LayoutRow) : String :=
  tableLine (toString row.depth) row.region.name (toString row.firstNumber) (toString row.count)
    (toString row.capacity) (if row.shared then "yes" else "")

def NodeAnswer.lines : NodeAnswer → List String
  | .invalid _ => []
  | .notChunked index region => ["", s!"Index {index} is in the {region.name} region (not chunked)"]
  | .located p =>
    ["",
     s!"Index {p.index}:",
     s!"  depth        {p.depth}",
     s!"  chunk id     {p.chunkStart}",
     s!"  chunk num    {p.number}",
     s!"  offset       {p.offset}",
     s!"  chunk size   {p.capacity}"]

def tableLines (path : String) (g : Geometry) (rows : List LayoutRow) : List String :=
  headerLines path g ++ titleLine :: rows.map rowLine

namespace Answer

/-- 0 for success, 1 for a refusal, 101 for a fault. -/
def exitCode : Answer → Nat
  | .missingConfig => 1
  | .notLoaded _ _ => 1
  | .nothingChunked _ _ => 0
  | .table _ _ _ (some (.invalid _)) => 1
  | .table _ _ _ _ => 0
  | .faulted _ => 101

def output : Answer → String
  | .missingConfig => ""
  | .notLoaded _ _ => ""
  | .nothingChunked path g => unlines (headerLines path g)
  | .table path g rows node =>
    unlines (tableLines path g rows ++ (node.map NodeAnswer.lines).getD [])
  | .faulted output => output

def log : Answer → List LogLine
  | .missingConfig => [⟨.error, "Missing --config <PATH>"⟩]
  | .notLoaded path reason => [⟨.error, s!"Failed to load {path}: {reason.message}"⟩]
  | .nothingChunked _ _ => [⟨.warn, "Structure has no cold region, nothing is chunked"⟩]
  | .table _ _ _ (some (.invalid arg)) => [⟨.error, s!"Invalid node index: {arg}"⟩]
  | .table _ _ _ _ => []
  | .faulted _ => []

end Answer

/-! ## Running -/

/-- The depth at which the table stops: as the arguments say, else the end of the chunked
    depths. -/
def tableEnd (g : Geometry) (args : List String) : Nat :=
  match (valueOf? "--depths" args).bind word? with
  | some depths => depths
  | none => g.coldEnd

/-- The answer for a geometry that has chunked depths. -/
def describe (path : String) (g : Geometry) (args : List String) : Answer :=
  match g.layout? 0 (tableEnd g args) with
  | .error _ => .faulted (unlines (tableLines path g []))
  | .ok rows =>
    match (valueOf? "--index" args).mapM (nodeAnswer g) with
    | .error _ => .faulted (unlines (tableLines path g rows))
    | .ok node => .table path g rows node

/-- The answer to `args`, where `readFile` gives the bytes of a file. -/
def run (args : List String) (readFile : String → Except IoError ByteArray) : Answer :=
  match valueOf? "--config" args with
  | none => .missingConfig
  | some path =>
    match Geometry.ofFile (readFile path) with
    | .error (.refused reason) => .notLoaded path reason
    | .error (.fault _) => .faulted ""
    | .ok g => if g.hasCold then describe path g args else .nothingChunked path g

end ChunkedTree.CommandLine
