/-
  Files by name, as far as reading and writing a document depends on them.

  A directory is known by where it stands, and by what stands in it, below it and around it. A name
  is resolved part by part, from the root if it begins with a slash and else from the directory, and
  every part but the last has to lead to a directory: `x/../y` is no other way to write `y`, since
  it needs a directory `x`. Writing a file brings the directories above it into being.
-/

namespace ChunkedTree

/-- Why a file cannot be read or written. -/
inductive IoError where
  | notFound
  | isDirectory
  | notDirectory
  /-- A file stands where a directory is to be made. -/
  | alreadyExists
  /-- The name has a NUL in it. -/
  | badName
  /-- The name, or a part of it, has too many bytes. -/
  | longName
  /-- The bytes are no text, or the text is no document. -/
  | invalidData
  | permissionDenied
  /-- Any other reason, in the words of the system. -/
  | other (details : String)
deriving DecidableEq, Repr

def IoError.name : IoError → String
  | .notFound => "NotFound"
  | .isDirectory => "IsADirectory"
  | .notDirectory => "NotADirectory"
  | .alreadyExists => "AlreadyExists"
  | .badName => "InvalidInput"
  | .longName => "InvalidFilename"
  | .invalidData => "InvalidData"
  | .permissionDenied => "PermissionDenied"
  | .other _ => "Other"

/-- What is reported. -/
def IoError.message : IoError → String
  | .notFound => "No such file or directory (os error 2)"
  | .isDirectory => "Is a directory (os error 21)"
  | .notDirectory => "Not a directory (os error 20)"
  | .alreadyExists => "File exists (os error 17)"
  | .badName => "file name contained an unexpected NUL byte"
  | .longName => "File name too long (os error 36)"
  | .invalidData => "the contents are no parameter document"
  | .permissionDenied => "Permission denied (os error 13)"
  | .other details => details

/-! ## Names -/

/-- The parts of a file's name between its slashes. The first part of a name that begins with a
    slash is empty. -/
abbrev Path := List String

namespace Path

/-- A name has fewer bytes than this. -/
def nameLimit : Nat := 4096

/-- A part of a name has at most this many bytes. -/
def partLimit : Nat := 255

/-- The part stays in the directory that it is resolved in. -/
def isHere (part : String) : Bool := part == "" || part == "."

/-- The part stands for a directory that is there in any case: the one that it is resolved in, or
    the one above. -/
def isDots (part : String) : Bool := isHere part || part == ".."

/-- The pieces of a text between its slashes. -/
def pieces : List Char → List (List Char)
  | [] => [[]]
  | c :: cs =>
    if c == '/' then [] :: pieces cs
    else match pieces cs with
      | [] => [[c]]
      | piece :: rest => (c :: piece) :: rest

/-- The parts of a name, which must not be empty. -/
def parse (name : String) : Except IoError Path :=
  match name.toList with
  | [] => .error .notFound
  | cs => .ok ((pieces cs).map String.ofList)

/-- The name is resolved from the root. -/
def isAbsolute (path : Path) : Bool := path.head? == some ""

/-- The text of the name can be handed over as a whole. -/
def check (path : Path) : Except IoError Unit :=
  let text := "/".intercalate path
  if text.toList.contains '\x00' then .error .badName
  else if nameLimit ≤ text.utf8ByteSize then .error .longName
  else .ok ()

/-- What stands above the last part that leads anywhere. -/
def parent (path : Path) : Path :=
  ((path.reverse.dropWhile isHere).tail.dropWhile isHere).reverse

end Path

/-! ## Places -/

/-- Where something can stand: it is reached from the root down through the names, of which the last
    one comes first. -/
structure Place where
  names : List String
deriving DecidableEq, Repr

namespace Place

def root : Place := ⟨[]⟩

/-- One level up; nothing is above the root. -/
def up (p : Place) : Place := ⟨p.names.tail⟩

/-- One level down. -/
def down (p : Place) (name : String) : Place := ⟨name :: p.names⟩

end Place

/-- What stands at a place. -/
inductive Entry where
  | directory
  | file (bytes : ByteArray)

/-- What is known to stand in a directory, below it and around it; of several entries at one
    place the first one counts. -/
structure Directory where
  /-- Where the directory itself stands. -/
  place : Place
  entries : List (Place × Entry)

namespace Directory

/-- Nothing is known but the directory itself and those above it. If it is not said where the
    directory stands, it is one of those below the root. -/
def empty (place : Place := Place.root.down "work") : Directory := ⟨place, []⟩

/-- What stands at `p`. -/
def entry? (dir : Directory) (p : Place) : Option Entry :=
  if p.names.isSuffixOf dir.place.names then some .directory else dir.entries.lookup p

/-- The directory after `entry` is put at `p`. -/
def put (dir : Directory) (p : Place) (entry : Entry) : Directory :=
  { dir with entries := (p, entry) :: dir.entries }

/-! ## Resolving a name -/

/-- The place that one part leads to from `p`, which has to be a directory. -/
def step (dir : Directory) (p : Place) (part : String) : Except IoError Place :=
  match dir.entry? p with
  | none => .error .notFound
  | some (.file _) => .error .notDirectory
  | some .directory =>
    if Path.isHere part then .ok p
    else if part == ".." then .ok p.up
    else if Path.partLimit < part.utf8ByteSize then .error .longName
    else .ok (p.down part)

/-- The place that `path` is resolved from. -/
def start (dir : Directory) (path : Path) : Place :=
  if path.isAbsolute then .root else dir.place

/-- The place that `path` leads to. -/
def walk (dir : Directory) (path : Path) : Except IoError Place :=
  path.foldlM dir.step (dir.start path)

/-- The place that a file called `path` is written to. A slash after the last part asks for a
    directory, which no file can be. -/
def target (dir : Directory) (path : Path) : Except IoError Place :=
  match path.reverse.dropWhile (· == "") with
  | [] => .error .isDirectory
  | last :: front => do
    let p ← dir.walk front.reverse
    if path.getLast? == some "" && !Path.isDots last then
      let _ ← dir.step p "."
      throw .isDirectory
    else dir.step p last

/-! ## Making directories -/

/-- The place that one part leads to, which is made a directory if nothing is there. -/
def enter (reached : Directory × Place) (part : String) : Except IoError (Directory × Place) := do
  let (dir, p) := reached
  let q ← dir.step p part
  match dir.entry? q with
  | none => return (dir.put q .directory, q)
  | some _ => return (dir, q)

/-- The directory after `path` is made a directory, and all that it leads through. -/
def makeAll (dir : Directory) (path : Path) : Except IoError Directory := do
  let (dir, p) ← path.foldlM enter (dir, dir.start path)
  match dir.entry? p with
  | some (.file _) => throw .alreadyExists
  | _ => return dir

/-! ## Reading and writing -/

/-- The bytes of the file called `name`. -/
def read (dir : Directory) (name : String) : Except IoError ByteArray := do
  let path ← Path.parse name
  path.check
  let p ← dir.walk path
  match dir.entry? p with
  | none => throw .notFound
  | some .directory => throw .isDirectory
  | some (.file bytes) => return bytes

/-- The directory after `bytes` are written to the file called `name`. -/
def write (dir : Directory) (name : String) (bytes : ByteArray) : Except IoError Directory := do
  let path ← Path.parse name
  path.parent.check
  let dir ← dir.makeAll path.parent
  path.check
  let p ← dir.target path
  match dir.entry? p with
  | some .directory => throw .isDirectory
  | _ => return dir.put p (.file bytes)

end Directory

end ChunkedTree
