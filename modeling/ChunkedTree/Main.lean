/-
  The program: read the document that the arguments name, print the answer.
-/
import ChunkedTree.CommandLine

namespace ChunkedTree.CommandLine

/-- The number of a system error, which is handed over with either sign. -/
def systemNumber (code : UInt32) : UInt32 := min code (-code)

/-- Why the system does not read a file. -/
def ioError : IO.Error → IoError
  | .noFileOrDirectory .. => .notFound
  | .permissionDenied .. => .permissionDenied
  | .inappropriateType _ code details =>
    if systemNumber code == 20 then .notDirectory
    else if systemNumber code == 21 then .isDirectory
    else .other details
  | .invalidArgument _ code details =>
    if systemNumber code == 36 then .longName else .other details
  | error => .other error.toString

/-- The bytes of the file at `path`. -/
def readFile (path : String) : IO (Except IoError ByteArray) := do
  match ← (IO.FS.readBinFile path).toBaseIO with
  | .ok bytes => return .ok bytes
  | .error error => return .error (ioError error)

/-- Print an answer, and the lines it logs. -/
def Answer.print (answer : Answer) : IO Unit := do
  IO.print answer.output
  for line in answer.log do
    if line.level.isShown then IO.eprint s!"[{line.level.name}] {line.shown}"

end ChunkedTree.CommandLine

open ChunkedTree in
def main (args : List String) : IO UInt32 := do
  let contents ← match CommandLine.valueOf? "--config" args with
    | some path => CommandLine.readFile path
    | none => pure (.error .notFound)
  let answer := CommandLine.run args fun _ => contents
  answer.print
  return answer.exitCode.toUInt32
